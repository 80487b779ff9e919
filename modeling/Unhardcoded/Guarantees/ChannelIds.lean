import Unhardcoded.Source.ChannelIds

/-!
# Two checks of one channel id, and the id list between two processes

Python's `$` also stands in front of a final line feed, JavaScript's does not:
`CHANNEL_ID_RE` accepts a valid id with a line feed behind it and `validChannelId`
refuses it (`channelIdMatches_iff`). Every list without such an id survives
`encodeIds` and `parseIds` as the set of its ids; a list with one is refused whole.
-/

namespace Unhardcoded.Guarantees.ChannelIds
open Source Python

section Shapes

theorem validChannelId_ofList (first : Char) (rest : List Char) :
    validChannelId (String.ofList (first :: rest)) =
      (first.isAlphanum && decide (rest.length ≤ 127) && rest.all idFollows) := by
  simp [validChannelId]

theorem not_follows_newline : idFollows '\n' = false := by decide

theorem not_follows_comma : idFollows ',' = false := by decide

theorem follows_of_alphanum {c : Char} (h : c.isAlphanum = true) : idFollows c = true := by
  simp [idFollows, h]

/-- No id holds a character outside its class. -/
theorem follows_of_mem {s : String} (h : validChannelId s = true) {c : Char} (hc : c ∈ s.toList) :
    idFollows c = true := by
  unfold validChannelId at h
  split at h
  · cases h
  · rename_i first rest text
    simp only [Bool.and_eq_true, List.all_eq_true] at h
    rw [text] at hc
    rcases List.mem_cons.mp hc with rfl | hc
    · exact follows_of_alphanum h.1.1
    · exact h.2 c hc

theorem comma_not_mem {s : String} (h : validChannelId s = true) : ',' ∉ s.toList := by
  intro hc
  have := follows_of_mem h hc
  rw [not_follows_comma] at this
  cases this

theorem validChannelId_ne_empty {s : String} (h : validChannelId s = true) : s ≠ "" := by
  rintro rfl
  simp [validChannelId] at h

theorem getLast_of_valid {s : String} (h : validChannelId s = true) : s.toList.getLast? ≠ some '\n' := by
  intro last
  have := follows_of_mem h (List.mem_of_getLast? last)
  rw [not_follows_newline] at this
  cases this

/-- What Python accepts: what JavaScript accepts, and that with a line feed behind it. -/
theorem channelIdMatches_iff (s : String) : channelIdMatches s = true ↔
    validChannelId s = true ∨ ∃ base, validChannelId base = true ∧ s.toList = base.toList ++ ['\n'] := by
  unfold channelIdMatches
  cases text : s.toList with
  | nil =>
    constructor
    · intro h
      cases h
    · rintro (valid | ⟨base, -, ends⟩)
      · simp [validChannelId, text] at valid
      · simp at ends
  | cons first rest =>
    dsimp only
    split
    · -- a final line feed: the body is the text before it
      rename_i feed
      obtain ⟨body, rfl⟩ := List.getLast?_eq_some_iff.mp feed
      rw [List.dropLast_concat]
      constructor
      · intro accepted
        exact .inr ⟨String.ofList (first :: body), by rw [validChannelId_ofList]; exact accepted, by simp⟩
      · rintro (valid | ⟨base, valid, ends⟩)
        · have last : s.toList.getLast? = some '\n' := by
            rw [text, ← List.cons_append, List.getLast?_concat]
          exact absurd last (getLast_of_valid valid)
        · rw [← List.cons_append] at ends
          have same : base.toList = first :: body := (List.append_cancel_right ends).symm
          unfold validChannelId at valid
          rw [same] at valid
          exact valid
    · rename_i plain
      have direct : validChannelId s = (first.isAlphanum && decide (rest.length ≤ 127) && rest.all idFollows) := by
        simp [validChannelId, text]
      rw [direct]
      constructor
      · exact .inl
      · rintro (valid | ⟨base, valid, ends⟩)
        · exact valid
        · cases rest with
          | nil =>
            have : base.toList = [] := by
              have := congrArg List.length ends
              simpa using this
            simp [validChannelId, this] at valid
          | cons second rest =>
            have last := congrArg List.getLast? ends
            simp [List.getLast?_cons] at last
            simp [List.getLast?_cons, last] at plain

end Shapes

section Codec

/-- What the keeper may send is a short list of ids it accepts. -/
theorem bounded_of_maySend {ids : List String} (h : KeeperMaySend ids) :
    ids ≠ [] ∧ ids.length ≤ maxTxPerCycle ∧ ∀ id ∈ ids, channelIdMatches id = true := by
  obtain ⟨batch, nonempty, named, rfl⟩ := h
  refine ⟨fun none => ?_, List.length_take_le _ _, fun id hid => ?_⟩
  · have := congrArg List.length none
    rw [List.length_take, named, List.length_nil] at this
    have := List.length_pos_iff.mpr nonempty
    have : 0 < maxTxPerCycle := by decide
    omega
  · obtain ⟨c, -, hc⟩ := List.mem_filterMap.mp (List.mem_of_mem_take hid)
    exact (Option.filter_eq_some_iff.mp hc).2

/-- Every such list is one the keeper may send: a batch of channels so named. -/
theorem maySend_of_bounded {ids : List String} (nonempty : ids ≠ []) (short : ids.length ≤ maxTxPerCycle)
    (accepted : ∀ id ∈ ids, channelIdMatches id = true) : KeeperMaySend ids := by
  have named : channelIds (ids.map fun id => ⟨some id, false, none⟩) = ids := by
    unfold channelIds
    rw [List.filterMap_map]
    refine (List.filterMap_congr fun id hid => ?_).trans List.filterMap_some
    simp [accepted id hid]
  refine ⟨ids.map fun id => ⟨some id, false, none⟩, by simpa using nonempty, ?_, ?_⟩
  · rw [named, List.length_map]
  · rw [named, List.take_of_length_le short]

/-- The ids pushed by the loop of `encodeIds`: each id once, none invented. -/
theorem collectIds_valid {ids : List String} (valid : ∀ id ∈ ids, validChannelId id = true) (pushed : List String) :
    ∃ listed, collectIds (ids.map .str) pushed = some listed ∧ ∀ id, id ∈ listed ↔ id ∈ pushed ∨ id ∈ ids := by
  induction ids generalizing pushed with
  | nil => exact ⟨pushed, rfl, by simp⟩
  | cons id rest ih =>
    have ok := valid id List.mem_cons_self
    obtain ⟨listed, ran, members⟩ := ih (fun x hx => valid x (List.mem_cons_of_mem _ hx))
      (if id ∈ pushed then pushed else pushed ++ [id])
    refine ⟨listed, by simpa [collectIds, ok] using ran, fun x => ?_⟩
    rw [members]
    by_cases already : id ∈ pushed
    · rw [if_pos already, List.mem_cons]
      constructor
      · rintro (old | new)
        · exact .inl old
        · exact .inr (.inr new)
      · rintro (old | rfl | new)
        · exact .inl old
        · exact .inl already
        · exact .inr new
    · rw [if_neg already, List.mem_append, List.mem_singleton, List.mem_cons, or_assoc]

theorem collectIds_invalid {ids : List String} {bad : String} (mem : bad ∈ ids)
    (invalid : validChannelId bad = false) (pushed : List String) : collectIds (ids.map .str) pushed = none := by
  induction ids generalizing pushed with
  | nil => cases mem
  | cons id rest ih =>
    rcases List.mem_cons.mp mem with rfl | mem
    · simp [collectIds, invalid]
    · cases ok : validChannelId id with
      | false => simp [collectIds, ok]
      | true => simpa [collectIds, ok] using ih mem _

/-- Joined with commas and split again: no id holds a comma. -/
theorem splitIds_joinIds {ids : List String} (nonempty : ids ≠ [])
    (valid : ∀ id ∈ ids, validChannelId id = true) : splitIds (joinIds ids) = ids := by
  unfold splitIds joinIds
  rw [String.toList_ofList, List.splitOn_intercalate ',' _ (by simpa using nonempty)]
  · simp
  · intro text htext
    obtain ⟨id, hid, rfl⟩ := List.mem_map.mp htext
    exact comma_not_mem (valid id hid)

theorem parseIds_joinIds {ids : List String} (nonempty : ids ≠ [])
    (valid : ∀ id ∈ ids, validChannelId id = true) : parseIds (some (joinIds ids)) = some ids.toFinset := by
  have back := splitIds_joinIds nonempty valid
  have some_text : joinIds ids ≠ "" := by
    intro empty
    rw [empty] at back
    have : splitIds "" = [""] := by decide
    rw [this] at back
    exact validChannelId_ne_empty (valid "" (by rw [← back]; exact List.mem_singleton_self _)) rfl
  have nonblank : ids.filter (· ≠ "") = ids :=
    List.filter_eq_self.mpr fun id hid => by simpa using validChannelId_ne_empty (valid id hid)
  have kept : ids.filter validChannelId = ids := List.filter_eq_self.mpr valid
  unfold parseIds
  dsimp only
  rw [if_neg some_text, back, nonblank, kept]

/-- `parseIds` never lets an invalid id through. -/
theorem valid_of_mem_parseIds {argv : Option String} {ids : Finset String} (h : parseIds argv = some ids)
    {id : String} (mem : id ∈ ids) : validChannelId id = true := by
  unfold parseIds at h
  cases argv with
  | none => cases h
  | some text =>
    dsimp only at h
    split at h
    · cases h
    · rw [← Option.some.inj h, List.mem_toFinset] at mem
      exact (List.mem_filter.mp mem).2

end Codec

/-- The list crosses both halves of ids.js as the set of its ids. -/
def Crosses (ids : List String) : Prop :=
  ∃ listed value, encodeIds (some (.arr (ids.map .str))) = .selected listed value ∧
    parseIds (some value) = some ids.toFinset

theorem crosses_iff {ids : List String} (h : KeeperMaySend ids) :
    Crosses ids ↔ ∀ id ∈ ids, validChannelId id = true := by
  obtain ⟨nonempty, short, -⟩ := bounded_of_maySend h
  have fits : ¬ maxIds < (ids.map Json.str).length := by
    rw [List.length_map]
    exact Nat.not_lt.mpr (le_trans short (by decide))
  have filled : ids.map Json.str ≠ [] := by simpa using nonempty
  constructor
  · rintro ⟨listed, value, encoded, -⟩ id hid
    by_contra invalid
    unfold encodeIds at encoded
    dsimp only at encoded
    rw [if_neg filled, if_neg fits, collectIds_invalid hid (by simpa using invalid)] at encoded
    cases encoded
  · intro valid
    obtain ⟨listed, ran, members⟩ := collectIds_valid valid []
    have same : ∀ id, id ∈ listed ↔ id ∈ ids := by simpa using members
    have some_ : listed ≠ [] := by
      intro empty
      obtain ⟨id, hid⟩ := List.exists_mem_of_ne_nil ids nonempty
      simpa [empty] using (same id).mpr hid
    refine ⟨listed, joinIds listed, ?_, ?_⟩
    · unfold encodeIds
      dsimp only
      rw [if_neg filled, if_neg fits, ran]
    · rw [parseIds_joinIds some_ fun id hid => valid id ((same id).mp hid)]
      refine congrArg some (Finset.ext fun id => ?_)
      rw [List.mem_toFinset, List.mem_toFinset, same]

/-- The id codec agrees on a string, a list the keeper may send and an argument. -/
def CodecAgrees (s : String) (ids : List String) (argv : Option String) : Prop :=
  channelIdMatches s = validChannelId s ∧ (KeeperMaySend ids → Crosses ids) ∧
    ∀ chosen ∈ parseIds argv, ∀ id ∈ chosen, validChannelId id = true

/-- The string is a valid id with a line feed behind it. -/
def FeedBehind (s : String) : Prop := ∃ base, validChannelId base = true ∧ s.toList = base.toList ++ ['\n']

theorem not_valid_of_feedBehind {s : String} (h : FeedBehind s) : validChannelId s = false := by
  obtain ⟨base, -, ends⟩ := h
  cases valid : validChannelId s with
  | false => rfl
  | true => exact absurd (by rw [ends, List.getLast?_concat]) (getLast_of_valid valid)

/-- The two processes agree exactly where no line feed stands behind an id. -/
theorem codec_agrees_iff (s : String) (ids : List String) (argv : Option String) :
    CodecAgrees s ids argv ↔ ¬ FeedBehind s ∧ (KeeperMaySend ids → ∀ id ∈ ids, ¬ FeedBehind id) := by
  have agree : channelIdMatches s = validChannelId s ↔ ¬ FeedBehind s := by
    rw [Bool.eq_iff_iff, channelIdMatches_iff]
    constructor
    · intro same feed
      have := same.mp (.inr feed)
      rw [not_valid_of_feedBehind feed] at this
      cases this
    · exact fun plain => ⟨fun accepted => accepted.resolve_right plain, .inl⟩
  have cross : (KeeperMaySend ids → Crosses ids) ↔ (KeeperMaySend ids → ∀ id ∈ ids, ¬ FeedBehind id) := by
    refine imp_congr_right fun sent => ?_
    rw [crosses_iff sent]
    refine forall₂_congr fun id hid => ?_
    have accepted := (channelIdMatches_iff id).mp ((bounded_of_maySend sent).2.2 id hid)
    constructor
    · intro valid feed
      rw [not_valid_of_feedBehind feed] at valid
      cases valid
    · exact fun plain => accepted.resolve_right plain
  constructor
  · exact fun ⟨same, crosses, _⟩ => ⟨agree.mp same, cross.mp crosses⟩
  · exact fun ⟨plain, plains⟩ =>
      ⟨agree.mpr plain, cross.mpr plains, fun chosen parsed id mem => valid_of_mem_parseIds parsed mem⟩

/-- `"c1\n"` passes the keeper's check only, and a batch that names it is refused. -/
theorem codec_disagrees_on_feed : ¬ CodecAgrees "c1\n" [] none ∧ ¬ CodecAgrees "c1" ["c1\n"] none := by
  constructor
  · intro agrees
    exact absurd agrees.1 (by decide)
  · intro agrees
    have sent : KeeperMaySend ["c1\n"] := maySend_of_bounded (by decide) (by decide) (by decide)
    exact absurd ((crosses_iff sent).mp (agrees.2.1 sent) "c1\n" List.mem_cons_self) (by decide)

end Unhardcoded.Guarantees.ChannelIds
