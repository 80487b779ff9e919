import Mathlib.Data.List.Basic

/-!
# Paging through an append-only log

A log holds entries with ascending keys. A page takes, of the entries behind a
cursor that are ready to be read, the first so many; its cursor is the key of the
last one. Where readiness is granted in log order, a page is exactly the stretch
between its two cursors (`page_eq_between`), so the pages of a sequence, put
together, are the stretch from its start to its last cursor (`between_append`),
and what is appended later does not change it (`between_concat`).
-/

namespace Unhardcoded.Effects.Paging

variable {α : Type} (key : α → Nat)

def Ascending (log : List α) : Prop := log.Pairwise fun a b => key a < key b

/-- The entries behind `lo`, up to and with `hi`. -/
def between (log : List α) (lo hi : Nat) : List α := log.filter fun a => lo < key a ∧ key a ≤ hi

/-- The first `limit` ready entries behind a cursor. -/
def page (ready : α → Bool) (log : List α) (after limit : Nat) : List α :=
  (log.filter fun a => after < key a ∧ ready a).take limit

/-- The cursor a page leaves. -/
def cursor (rows : List α) (after : Nat) : Nat :=
  match rows.getLast? with
  | some row => key row
  | none => after

variable {key} {log : List α} {lo mid hi : Nat}

@[simp] theorem cursor_nil (after : Nat) : cursor key [] after = after := rfl

theorem cursor_concat (rows : List α) (row : α) (after : Nat) : cursor key (rows ++ [row]) after = key row := by
  simp [cursor]

theorem between_eq_nil (h : ∀ a ∈ log, hi < key a) : between key log lo hi = [] := by
  refine List.filter_eq_nil_iff.mpr fun a ha => ?_
  have := h a ha
  simp only [decide_eq_true_eq]
  omega

theorem between_empty (h : hi ≤ lo) : between key log lo hi = [] := by
  refine List.filter_eq_nil_iff.mpr fun a _ => ?_
  simp only [decide_eq_true_eq]
  omega

/-- Stretches that meet are one stretch. -/
theorem between_append (ascending : Ascending key log) (first : lo ≤ mid) (second : mid ≤ hi) :
    between key log lo mid ++ between key log mid hi = between key log lo hi := by
  induction log with
  | nil => rfl
  | cons a rest ih =>
    obtain ⟨later, ascending⟩ := List.pairwise_cons.mp ascending
    have rest_eq := ih ascending
    unfold between at rest_eq ⊢
    rw [List.filter_cons, List.filter_cons, List.filter_cons]
    by_cases below : key a ≤ mid
    · rw [if_neg (show ¬ decide (mid < key a ∧ key a ≤ hi) = true by simp; omega)]
      by_cases behind : lo < key a
      · rw [if_pos (by simp; omega), if_pos (by simp; omega), List.cons_append, rest_eq]
      · rw [if_neg (by simp; omega), if_neg (by simp; omega), rest_eq]
    · -- every later entry is behind `mid` too
      have nothing : rest.filter (fun b => decide (lo < key b ∧ key b ≤ mid)) = [] := by
        apply between_eq_nil
        intro b hb
        have := later b hb
        omega
      rw [nothing, List.nil_append] at rest_eq
      rw [if_neg (by simp; omega), nothing, List.nil_append, rest_eq]
      by_cases within : key a ≤ hi
      · rw [if_pos (by simp; omega), if_pos (by simp; omega)]
      · rw [if_neg (by simp; omega), if_neg (by simp; omega)]

/-- An entry appended behind a stretch does not change it. -/
theorem between_concat {a : α} (behind : hi ≤ lo ∨ hi < key a) :
    between key (log ++ [a]) lo hi = between key log lo hi := by
  have out : between key [a] lo hi = [] := by
    rcases behind with nothing | behind
    · exact between_empty nothing
    · apply between_eq_nil
      intro b hb
      rw [List.mem_singleton.mp hb]
      exact behind
  unfold between at out ⊢
  rw [List.filter_append, out, List.append_nil]

/-- Of an ascending list, what is up to the last of its first entries are these. -/
theorem take_eq_filter (ascending : Ascending key log) (behind : ∀ a ∈ log, lo < key a) (limit : Nat) :
    log.take limit = log.filter fun a => key a ≤ cursor key (log.take limit) lo := by
  rcases List.eq_nil_or_concat' (log.take limit) with none_taken | ⟨front, last, taken⟩
  · rw [none_taken, cursor_nil]
    symm
    refine List.filter_eq_nil_iff.mpr fun a ha => ?_
    have := behind a ha
    simp only [decide_eq_true_eq]
    omega
  · rw [taken, cursor_concat]
    have split : log = front ++ [last] ++ log.drop limit := by
      rw [← taken, List.take_append_drop]
    rw [split] at ascending
    obtain ⟨fronts, -, across⟩ := List.pairwise_append.mp ascending
    obtain ⟨-, -, before⟩ := List.pairwise_append.mp fronts
    have kept : (front ++ [last]).filter (fun a => decide (key a ≤ key last)) = front ++ [last] := by
      refine List.filter_eq_self.mpr fun a ha => ?_
      rcases List.mem_append.mp ha with ha | ha
      · have := before a ha last (by simp)
        simp only [decide_eq_true_eq]
        omega
      · rw [List.mem_singleton.mp ha]
        simp
    have dropped : (log.drop limit).filter (fun a => decide (key a ≤ key last)) = [] := by
      refine List.filter_eq_nil_iff.mpr fun a ha => ?_
      have := across last (by simp) a ha
      simp only [decide_eq_true_eq]
      omega
    conv_rhs => rw [split, List.filter_append, kept, dropped, List.append_nil]

variable (key) in
theorem cursor_cases (rows : List α) (after : Nat) :
    cursor key rows after = after ∨ ∃ last ∈ rows, cursor key rows after = key last := by
  rcases List.eq_nil_or_concat' rows with rfl | ⟨front, last, rfl⟩
  · exact .inl rfl
  · exact .inr ⟨last, by simp, cursor_concat front last after⟩

theorem mem_page {ready : α → Bool} {after limit : Nat} {a : α} (h : a ∈ page key ready log after limit) :
    a ∈ log ∧ after < key a ∧ ready a = true := by
  have listed := List.mem_of_mem_take h
  have eligible := List.of_mem_filter listed
  simp only [decide_eq_true_eq] at eligible
  exact ⟨List.mem_of_mem_filter listed, eligible⟩

theorem le_cursor (ready : α → Bool) (log : List α) (after limit : Nat) :
    after ≤ cursor key (page key ready log after limit) after := by
  rcases cursor_cases key (page key ready log after limit) after with same | ⟨last, row, same⟩
  · omega
  · have := (mem_page row).2.1
    omega

/-- Readiness granted in log order is granted in key order. -/
theorem ready_of_le {ready : α → Bool} (ascending : Ascending key log)
    (inOrder : log.Pairwise fun a b => ready b = true → ready a = true) {a b : α} (ha : a ∈ log) (hb : b ∈ log)
    (le : key a ≤ key b) (granted : ready b = true) : ready a = true := by
  have forward : log.Pairwise fun a b => key a ≤ key b → ready b = true → ready a = true :=
    inOrder.imp fun {a b} earlier => (fun _ => earlier : key a ≤ key b → _)
  have backward : log.Pairwise fun a b => key b ≤ key a → ready a = true → ready b = true :=
    ascending.imp fun less _ => by omega
  exact List.Pairwise.forall_of_forall_of_flip (fun _ _ _ => id) forward backward ha hb le granted

/-- Where readiness is granted in log order, a page skips nothing. -/
theorem page_eq_between {ready : α → Bool} (ascending : Ascending key log)
    (inOrder : log.Pairwise fun a b => ready b = true → ready a = true) (after limit : Nat) :
    page key ready log after limit =
      between key log after (cursor key (page key ready log after limit) after) := by
  have behind : ∀ a ∈ log.filter (fun a => decide (after < key a ∧ ready a = true)), after < key a := by
    intro a ha
    have eligible := List.of_mem_filter ha
    simp only [decide_eq_true_eq] at eligible
    exact eligible.1
  have taken : page key ready log after limit =
      (log.filter fun a => decide (after < key a ∧ ready a = true)).filter fun a =>
        key a ≤ cursor key (page key ready log after limit) after :=
    take_eq_filter (ascending.filter _) behind limit
  have ends := cursor_cases key (page key ready log after limit) after
  have rows := fun last (h : last ∈ page key ready log after limit) => mem_page h
  generalize cursor key (page key ready log after limit) after = stop at taken ends ⊢
  rw [taken, List.filter_filter]
  refine List.filter_congr fun a ha => ?_
  rw [Bool.eq_iff_iff]
  simp only [Bool.and_eq_true, decide_eq_true_eq]
  constructor
  · rintro ⟨within, beyond, -⟩
    exact ⟨beyond, within⟩
  · rintro ⟨beyond, within⟩
    refine ⟨within, beyond, ?_⟩
    -- the last row of the page is ready, and `a` is not behind it
    rcases ends with rfl | ⟨last, row, rfl⟩
    · omega
    · obtain ⟨logged, -, ready_last⟩ := rows last row
      exact ready_of_le ascending inOrder ha logged within ready_last

end Unhardcoded.Effects.Paging
