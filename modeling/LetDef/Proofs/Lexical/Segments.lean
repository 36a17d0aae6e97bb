import Mathlib.Data.List.DropRight
import Mathlib.Data.List.Forall2
import LetDef.Proofs.Lexical.Place

/-!
# Segments of a text

A reader can be asked to look ahead, to read on, and to set its mark, in any order.  Whenever the
mark is set, the characters held make up a segment of the text: a token, or characters that are
dropped.  `Reader.actions_partition` says that the segments follow each other without a gap, and
that they make up all that has been read, together with the characters still held.

What a single action does is said by `Reader.Action.Does`, from the text and two indices alone: that
of the character ahead and that of the last mark.  The second one is not told by the reader but by
the actions before (`Reader.boundary`).
-/

namespace LetDef.Reader

/-! ## Actions -/

/-- What a reader can be asked to do. -/
inductive Action where
  /-- To tell whether more than so many characters are ahead. -/
  | has (n : Nat)
  /-- To tell the character ahead after so many others. -/
  | get (n : Nat)
  /-- To tell the character ahead. -/
  | peek
  /-- To compare the characters ahead with classes. -/
  | sees (classes : List (Char → Bool))
  /-- To read one character for each class if all of them match. -/
  | accept (classes : List (Char → Bool))
  /-- To read the given character if it is ahead. -/
  | acceptChar (c : Char)
  /-- To read characters as long as they are members of the class. -/
  | acceptWhile (p : Char → Bool)
  /-- To read one character. -/
  | advance
  /-- To drop the characters held. -/
  | mark
  /-- To make a token of the characters held. -/
  | cut (kind : Token.Kind)

/-- What an action is answered with. -/
inductive Reply where
  /-- Whether something holds. -/
  | flag (value : Bool)
  /-- A character, if there is one. -/
  | character (c : Option Char)
  /-- How many characters have been read. -/
  | count (n : Nat)
  /-- A token that has been made. -/
  | token (token : Token)
  /-- There is nothing to say. -/
  | done

/-- Whether the action sets the mark. -/
def Action.setsMark : Action → Bool
  | mark | cut _ => true
  | _ => false

/-- Does what is asked for. -/
def perform (r : Reader) : Action → Reply × Reader
  | .has n => (.flag (r.has n), r)
  | .get n => (.character (r.get? n), r)
  | .peek => (.character r.peek?, r)
  | .sees classes => (.flag (r.sees classes), r)
  | .accept classes => (.flag (r.accept classes).1, (r.accept classes).2)
  | .acceptChar c => (.flag (r.acceptChar c).1, (r.acceptChar c).2)
  | .acceptWhile p => (.count (r.acceptWhile p).1, (r.acceptWhile p).2)
  | .advance => (.done, r.advance)
  | .mark => (.done, r.mark)
  | .cut kind => (.token (r.cut kind).1, (r.cut kind).2)

/-- Where the actions lead to. -/
def performAll (r : Reader) (actions : List Action) : Reader :=
  actions.foldl (fun r action => (r.perform action).2) r

/-- The index at which the last of the actions that set the mark has set it; if there is none, the
index at which they start. -/
def boundary (r : Reader) (actions : List Action) : Nat :=
  (r.performAll (actions.rdropWhile fun action => !action.setsMark)).index

/-! ## What an action does -/

/-- The characters start with as many as there are classes, each a member of the class at its
place. -/
def Match (classes : List (Char → Bool)) (cs : List Char) : Prop :=
  ∃ word rest, cs = word ++ rest ∧ List.Forall₂ (fun p c => p c = true) classes word

/-- What the action is answered with where the character with the index `i` is ahead and the mark
was set at the index `b`, and how many characters it reads. -/
inductive Action.Does (cs : List Char) (b i : Nat) : Action → Reply → Nat → Prop where
  | has (n : Nat) : Does cs b i (.has n) (.flag (i + n < cs.length)) 0
  | get (n : Nat) : Does cs b i (.get n) (.character cs[i + n]?) 0
  | peek : Does cs b i .peek (.character cs[i]?) 0
  | seen {classes : List (Char → Bool)} : Match classes (cs.drop i) →
      Does cs b i (.sees classes) (.flag true) 0
  | unseen {classes : List (Char → Bool)} : ¬ Match classes (cs.drop i) →
      Does cs b i (.sees classes) (.flag false) 0
  | accepted {classes : List (Char → Bool)} : Match classes (cs.drop i) →
      Does cs b i (.accept classes) (.flag true) classes.length
  | refused {classes : List (Char → Bool)} : ¬ Match classes (cs.drop i) →
      Does cs b i (.accept classes) (.flag false) 0
  | found {c : Char} : cs[i]? = some c → Does cs b i (.acceptChar c) (.flag true) 1
  | missed {c : Char} : cs[i]? ≠ some c → Does cs b i (.acceptChar c) (.flag false) 0
  /-- The word is as long as the class permits. -/
  | acceptWhile {p : Char → Bool} {word rest : List Char} : cs.drop i = word ++ rest →
      (∀ c ∈ word, p c) → (∀ c ∈ rest.head?, ¬ p c) →
      Does cs b i (.acceptWhile p) (.count word.length) word.length
  | advance : i < cs.length → Does cs b i .advance .done 1
  /-- There is nothing to read at the end of the text. -/
  | stay : cs.length ≤ i → Does cs b i .advance .done 0
  | mark : Does cs b i .mark .done 0
  /-- The token is what stands between the mark and the character ahead. -/
  | cut (kind : Token.Kind) :
      Does cs b i (.cut kind) (.token ⟨kind, String.ofList ((cs.drop b).take (i - b)), b⟩) 0

section Does

variable {cs : List Char} {r : Reader} {classes : List (Char → Bool)}

lemma match_nil (cs : List Char) : Match [] cs :=
  ⟨[], cs, rfl, .nil⟩

lemma not_match_nil (p : Char → Bool) (classes : List (Char → Bool)) :
    ¬ Match (p :: classes) [] := by
  rintro ⟨word, rest, hnil, hmatch⟩
  obtain ⟨rfl, -⟩ := List.append_eq_nil_iff.1 hnil.symm
  cases hmatch

lemma match_cons_iff {p : Char → Bool} {c : Char} :
    Match (p :: classes) (c :: cs) ↔ p c ∧ Match classes cs := by
  constructor
  · rintro ⟨_, rest, hcs, _ | ⟨hp, hmatch⟩⟩
    obtain ⟨rfl, rfl⟩ := List.cons.inj hcs
    exact ⟨hp, _, rest, rfl, hmatch⟩
  · rintro ⟨hp, word, rest, rfl, hmatch⟩
    exact ⟨c :: word, rest, rfl, .cons hp hmatch⟩

lemma Match.length_le (h : Match classes cs) : classes.length ≤ cs.length := by
  obtain ⟨word, rest, rfl, hmatch⟩ := h
  rw [hmatch.length_eq, List.length_append]
  exact Nat.le_add_right _ _

theorem sees_iff : r.sees classes ↔ Match classes r.ahead := by
  unfold sees
  generalize r.ahead = cs
  induction classes generalizing cs with
  | nil => simp [sees.go, match_nil]
  | cons p classes ih =>
    cases cs with
    | nil => simp [sees.go, not_match_nil]
    | cons c cs => simp [sees.go, match_cons_iff, ih]

/-- As many characters are read as there are, and the mark stays where it is. -/
lemma advanceBy_of_le {n : Nat} (h : n ≤ r.ahead.length) :
    (r.advanceBy n).index = r.index + n ∧ (r.advanceBy n).start = r.start := by
  rw [index_advanceBy, Nat.min_eq_left h]
  exact ⟨rfl, rfl⟩

lemma accept_of_match (h : Match classes r.ahead) :
    r.accept classes = (true, r.advanceBy classes.length) :=
  if_pos (sees_iff.2 h)

lemma accept_of_not_match (h : ¬ Match classes r.ahead) : r.accept classes = (false, r) :=
  if_neg fun hsees => h (sees_iff.1 hsees)

lemma match_char_iff {c : Char} : Match [(· = c)] cs ↔ cs.head? = some c := by
  cases cs with
  | nil => simp [not_match_nil]
  | cons d cs => simp [match_cons_iff, match_nil]

/-- A reader that has read the text up to some index answers as the text tells, reads on as far as
the text tells, and sets the mark where it stands or not at all. -/
theorem In.does (h : r.In cs) (action : Action) :
    ∃ n, action.Does cs r.start r.index (r.perform action).1 n ∧
      (r.perform action).2.index = r.index + n ∧
      (r.perform action).2.start = if action.setsMark then r.index else r.start := by
  have hahead : r.ahead = cs.drop r.index := h.ahead_eq
  have hlength : r.index + r.ahead.length = cs.length := h.index_add_length
  cases action with
  | has n =>
    have hhas : r.has n = decide (r.index + n < cs.length) :=
      decide_eq_decide.2 (by omega)
    exact ⟨0, by rw [perform, hhas]; exact .has n, rfl, rfl⟩
  | get n =>
    have hget : r.get? n = cs[r.index + n]? := by rw [get?, hahead, List.getElem?_drop]
    exact ⟨0, by rw [perform, hget]; exact .get n, rfl, rfl⟩
  | peek =>
    have hpeek : r.peek? = cs[r.index]? := by rw [peek?, get?, hahead, List.getElem?_drop]; rfl
    exact ⟨0, by rw [perform, hpeek]; exact .peek, rfl, rfl⟩
  | sees classes =>
    by_cases hmatch : Match classes r.ahead
    · exact ⟨0, by rw [perform, sees_iff.2 hmatch]; exact .seen (hahead ▸ hmatch), rfl, rfl⟩
    · have hsees : r.sees classes = false := Bool.eq_false_iff.2 fun hs => hmatch (sees_iff.1 hs)
      exact ⟨0, by rw [perform, hsees]; exact .unseen (hahead ▸ hmatch), rfl, rfl⟩
  | accept classes =>
    by_cases hmatch : Match classes r.ahead
    · rw [perform, accept_of_match hmatch]
      exact ⟨_, .accepted (hahead ▸ hmatch), advanceBy_of_le hmatch.length_le⟩
    · rw [perform, accept_of_not_match hmatch]
      exact ⟨0, .refused (hahead ▸ hmatch), rfl, rfl⟩
  | acceptChar c =>
    have hhead : cs[r.index]? = r.ahead.head? := by rw [hahead, List.head?_drop]
    by_cases hmatch : Match [(· = c)] r.ahead
    · rw [perform, acceptChar, accept_of_match hmatch]
      exact ⟨1, .found (hhead.trans (match_char_iff.1 hmatch)), advanceBy_of_le hmatch.length_le⟩
    · rw [perform, acceptChar, accept_of_not_match hmatch]
      exact ⟨0, .missed fun hc => hmatch (match_char_iff.2 (hhead.symm.trans hc)), rfl, rfl⟩
  | acceptWhile p =>
    have hsplit : cs.drop r.index = r.ahead.takeWhile p ++ r.ahead.dropWhile p := by
      rw [← hahead, List.takeWhile_append_dropWhile]
    refine ⟨_, .acceptWhile hsplit ?_ ?_, advanceBy_of_le (List.takeWhile_prefix p).length_le⟩
    · exact fun c hc => List.mem_takeWhile_imp hc
    · intro c hc
      have hfirst := List.head?_dropWhile_not p r.ahead
      rw [Option.mem_def.1 hc] at hfirst
      simpa using hfirst
  | advance =>
    by_cases hend : r.index < cs.length
    · exact ⟨1, .advance hend, advanceBy_of_le (by omega)⟩
    · have hnil : r.ahead.length = 0 := by omega
      refine ⟨0, .stay (Nat.le_of_not_lt hend), ?_, rfl⟩
      rw [perform, Reader.advance, index_advanceBy, hnil]
      rfl
  | mark => exact ⟨0, .mark, index_mark r, rfl⟩
  | cut kind =>
    have hpending : r.index - r.start = r.pending := Nat.add_sub_cancel_left _ _
    have htoken : (r.cut kind).1 =
        ⟨kind, String.ofList ((cs.drop r.start).take (r.index - r.start)), r.start⟩ := by
      rw [hpending, ← h.held_eq]
      rfl
    exact ⟨0, by rw [perform, htoken]; exact .cut kind, index_mark r, rfl⟩

end Does

/-! ## Segments -/

/-- The characters between two marks. -/
inductive Segment where
  /-- A token has been made of them. -/
  | token (token : Token)
  /-- They have been dropped. -/
  | dropped (chars : List Char)

/-- The characters of the segment. -/
def Segment.chars : Segment → List Char
  | token t => t.literal.toList
  | dropped cs => cs

/-- The segments follow each other from the index on, and each token starts where its segment
does. -/
inductive Consecutive : Nat → List Segment → Prop where
  | nil {n : Nat} : Consecutive n []
  | token {t : Token} {n : Nat} {rest : List Segment} : t.offset = n →
      Consecutive (n + t.literal.length) rest → Consecutive n (.token t :: rest)
  | dropped {cs : List Char} {n : Nat} {rest : List Segment} :
      Consecutive (n + cs.length) rest → Consecutive n (.dropped cs :: rest)

/-- The segment that ends where the action sets the mark. -/
def segment? (r : Reader) : Action → Option Segment
  | .mark => some (.dropped r.held.reverse)
  | .cut kind => some (.token (r.cut kind).1)
  | _ => none

/-- The segments that end where the actions set the mark. -/
def segments : Reader → List Action → List Segment
  | _, [] => []
  | r, action :: actions => (r.segment? action).toList ++ (r.perform action).2.segments actions

section Segments

variable {cs : List Char} {r : Reader}

theorem In.perform (h : r.In cs) (action : Action) : (r.perform action).2.In cs := by
  cases action with
  | has n | get n | peek | sees classes => exact h
  | accept classes | acceptChar c =>
    unfold Reader.perform
    simp only [acceptChar, accept]
    split
    · exact h.advanceBy _
    · exact h
  | acceptWhile p | advance => exact h.advanceBy _
  | mark | cut kind => exact h.mark

theorem In.performAll (h : r.In cs) (actions : List Action) : (r.performAll actions).In cs := by
  induction actions generalizing r with
  | nil => exact h
  | cons action actions ih => exact ih (h.perform action)

lemma performAll_append_singleton (r : Reader) (actions : List Action) (action : Action) :
    r.performAll (actions ++ [action]) = ((r.performAll actions).perform action).2 := by
  rw [Reader.performAll, List.foldl_append]
  rfl

/-- The characters held lie between the mark and the index. -/
lemma In.take_index (h : r.In cs) : cs.take r.index = cs.take r.start ++ r.held.reverse := by
  rw [index, List.take_add, h.held_eq]

/-- Up to the mark, the text is made up of segments. -/
theorem In.take_start (h : r.In cs) (actions : List Action) :
    cs.take (r.performAll actions).start =
      cs.take r.start ++ (r.segments actions).flatMap Segment.chars := by
  induction actions generalizing r with
  | nil => exact (List.append_nil _).symm
  | cons action actions ih =>
    have hsegment : cs.take (r.perform action).2.start =
        cs.take r.start ++ (r.segment? action).toList.flatMap Segment.chars := by
      obtain ⟨n, -, -, hstart⟩ := h.does action
      rw [hstart]
      cases action with
      | mark => simp [Action.setsMark, segment?, Segment.chars, h.take_index]
      | cut kind => simp [Action.setsMark, segment?, Segment.chars, Reader.cut, h.take_index]
      | _ => simp [Action.setsMark, segment?]
    rw [segments, List.flatMap_append, ← List.append_assoc, ← hsegment]
    exact ih (h.perform action)

theorem In.consecutive_segments (h : r.In cs) (actions : List Action) :
    Consecutive r.start (r.segments actions) := by
  induction actions generalizing r with
  | nil => exact .nil
  | cons action actions ih =>
    have hrest := ih (h.perform action)
    obtain ⟨n, -, -, hstart⟩ := h.does action
    rw [hstart] at hrest
    cases action with
    | mark =>
      have hlength : r.index = r.start + r.held.reverse.length := by rw [List.length_reverse]; rfl
      exact .dropped (hlength ▸ hrest)
    | cut kind =>
      have hlength : r.index = r.start + (r.cut kind).1.literal.length := by
        simp [Reader.cut, index, pending]
      exact .token rfl (hlength ▸ hrest)
    | _ => exact hrest

lemma pending_of_setsMark {action : Action} (h : action.setsMark) (r : Reader) :
    (r.perform action).2.pending = 0 := by
  cases action with
  | mark | cut kind => rfl
  | _ => exact absurd h Bool.false_ne_true

/-- The mark is where the actions have set it last. -/
theorem In.start_performAll (h : r.In cs) (hr : r.pending = 0) (actions : List Action) :
    (r.performAll actions).start = r.boundary actions := by
  induction actions using List.reverseRecOn with
  | nil =>
    show r.start = r.start + r.pending
    rw [hr, Nat.add_zero]
  | append_singleton actions action ih =>
    obtain ⟨n, -, -, hstart⟩ := (h.performAll actions).does action
    rw [performAll_append_singleton, hstart, ih, boundary, boundary, List.rdropWhile_concat]
    cases action with
    | mark | cut kind =>
      rw [show (!Action.setsMark _) = false from rfl, if_neg Bool.false_ne_true,
        performAll_append_singleton]
      exact (index_mark (r.performAll actions)).symm
    | _ => rfl

end Segments

/-- Whatever is asked of a reader, in whatever order: the segments that it has cut off or dropped
follow each other, and with the characters still held they are all that has been read.  The index is
that of the last mark and the number of these characters, and a further action does what the text
and the two indices tell. -/
theorem actions_partition (text : String) (actions : List Action) :
    let r := (ofString text).performAll actions
    let segments := (ofString text).segments actions
    let b := (ofString text).boundary actions
    segments.flatMap Segment.chars ++ r.held.reverse = text.toList.take r.index ∧
    Consecutive 0 segments ∧
    r.index = b + r.pending ∧ r.index ≤ text.length ∧
    ∀ action, ∃ n, action.Does text.toList b r.index (r.perform action).1 n ∧
      (r.perform action).2.index = r.index + n ∧
      (r.perform action).2.pending = if action.setsMark then 0 else r.pending + n := by
  intro r segments b
  have hin : (ofString text).In text.toList := in_ofList text.toList
  have hr : r.In text.toList := hin.performAll actions
  have hstart : r.start = b := hin.start_performAll rfl actions
  refine ⟨?_, hin.consecutive_segments actions, ?_, ?_, fun action => ?_⟩
  · rw [hr.take_index, hin.take_start actions]
    rfl
  · rw [← hstart]
    rfl
  · rw [← String.length_toList, ← hr.index_add_length]
    exact Nat.le_add_right _ _
  · obtain ⟨n, hdoes, hindex, hmark⟩ := hr.does action
    refine ⟨n, hstart ▸ hdoes, hindex, ?_⟩
    split
    case isTrue hsets => exact pending_of_setsMark hsets r
    case isFalse hsets =>
      have hindex' : (r.perform action).2.index =
          (r.perform action).2.start + (r.perform action).2.pending := rfl
      rw [hindex, hmark, if_neg hsets, show r.index = r.start + r.pending from rfl] at hindex'
      omega

end LetDef.Reader
