import LetDef.Token.Tokenizer

/-!
# Readers in a text

A reader keeps the index of its last mark, the characters held since and the characters ahead, and
nothing of what lies before the mark.  `Reader.In` says that it stands in a given text all the same:
some characters as many as the mark tells, then those held, then those ahead make up the text.
Every operation of a reader keeps this, and with it the index alone tells what is ahead
(`Reader.In.ahead_eq`) and what a token would be made of (`Reader.In.held_eq`).
-/

namespace LetDef

namespace Reader

/-- The reader stands in the text `cs`. -/
def In (r : Reader) (cs : List Char) : Prop :=
  ∃ passed : List Char, passed.length = r.start ∧ cs = passed ++ (r.held.reverse ++ r.ahead)

variable {r : Reader} {cs : List Char}

/-- A reader starts at the beginning of its text. -/
theorem in_ofList (cs : List Char) : (ofList cs).In cs :=
  ⟨[], rfl, rfl⟩

theorem In.advanceBy (h : r.In cs) (n : Nat) : (r.advanceBy n).In cs := by
  obtain ⟨passed, hlength, rfl⟩ := h
  refine ⟨passed, hlength, ?_⟩
  simp [Reader.advanceBy, List.take_append_drop]

theorem In.mark (h : r.In cs) : r.mark.In cs := by
  obtain ⟨passed, hlength, rfl⟩ := h
  refine ⟨passed ++ r.held.reverse, ?_, ?_⟩
  · simp [Reader.mark, Reader.index, Reader.pending, hlength]
  · simp [Reader.mark]

/-- To cut a token leaves the reader at its place; only the mark moves. -/
theorem In.cut (h : r.In cs) (kind : Token.Kind) : (r.cut kind).2.In cs :=
  h.mark

theorem In.scan (h : r.In cs) (recognise : List Char → Reading Token.Kind) :
    (r.scan recognise).2.In cs := by
  unfold Reader.scan
  simp only
  split
  · next kind _ => exact (h.advanceBy _).cut kind
  · exact h.advanceBy _

theorem In.skipBlanks (h : r.In cs) : r.skipBlanks.In cs := by
  unfold Reader.skipBlanks
  split
  · exact h
  · exact (h.advanceBy _).mark

/-- The index tells how much of the text has been read. -/
theorem In.index_add_length (h : r.In cs) : r.index + r.ahead.length = cs.length := by
  obtain ⟨passed, hlength, rfl⟩ := h
  simp [Reader.index, Reader.pending, ← hlength, Nat.add_assoc]

/-- What is ahead is the text without what has been read. -/
theorem In.ahead_eq (h : r.In cs) : r.ahead = cs.drop r.index := by
  obtain ⟨passed, hlength, rfl⟩ := h
  have hindex : r.index = (passed ++ r.held.reverse).length := by
    simp [Reader.index, Reader.pending, hlength]
  rw [hindex, ← List.append_assoc, List.drop_left]

/-- What is held is the text from the mark on, as far as it has been read. -/
theorem In.held_eq (h : r.In cs) : r.held.reverse = (cs.drop r.start).take r.pending := by
  obtain ⟨passed, hlength, rfl⟩ := h
  have hpending : r.pending = r.held.reverse.length := List.length_reverse.symm
  rw [← hlength, List.drop_left, hpending, List.take_left]

/-- The characters held are those read last. -/
theorem In.held_eq_drop (h : r.In cs) :
    r.held.reverse = (cs.take r.index).drop (r.index - r.pending) := by
  have hstart : r.index - r.pending = r.start := Nat.add_sub_cancel _ _
  have hpending : r.index - r.start = r.pending := Nat.add_sub_cancel_left _ _
  rw [List.drop_take, hstart, hpending]
  exact h.held_eq

/-! ## Scanning -/

/-- A scan succeeds exactly if the recogniser does, and then cuts off what it read. -/
theorem scan_eq_ok_iff {recognise : List Char → Reading Token.Kind} {token : Token}
    {r' : Reader} :
    r.scan recognise = (.ok token, r') ↔
      ∃ n kind, recognise r.ahead = ⟨n, .ok kind⟩ ∧
        (r.advanceBy n).cut kind = (token, r') := by
  unfold Reader.scan
  rcases hread : recognise r.ahead with ⟨n, verdict | kind⟩
  · simp
  · constructor
    · intro h
      obtain ⟨htoken, hreader⟩ := Prod.mk.inj h
      exact ⟨n, kind, rfl, Prod.ext (Except.ok.inj htoken) hreader⟩
    · rintro ⟨n', kind', heq, hcut⟩
      obtain ⟨rfl, hkind⟩ := Reading.mk.inj heq
      obtain rfl := Except.ok.inj hkind
      simp [hcut]

/-- A token that is cut where nothing was held before is what was read since. -/
theorem cut_advanceBy (start n : Nat) (cs : List Char) (kind : Token.Kind) :
    ((⟨start, [], cs⟩ : Reader).advanceBy n).cut kind =
      (⟨kind, String.ofList (cs.take n), start⟩,
        ⟨start + min n cs.length, [], cs.drop n⟩) := by
  simp [Reader.cut, Reader.advanceBy, Reader.mark, Reader.index, Reader.pending]

theorem eq_mk_of_pending (h : r.pending = 0) : r = ⟨r.index, [], r.ahead⟩ := by
  have hheld : r.held = [] := List.eq_nil_of_length_eq_zero h
  rcases r with ⟨start, held, ahead⟩
  simp_all [Reader.index, Reader.pending]

end Reader

end LetDef
