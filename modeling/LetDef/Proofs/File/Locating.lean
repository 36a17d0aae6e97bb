import Mathlib
import LetDef.File.Position

/-!
# Positions count lines

`Position.locate` walks over a text and never builds its lines.  Here the lines come first:
`SplitsInto cs lines` says that the characters `cs` fall into the lines `lines`, each with the break
that ends it, and `Position.LiesAt` says which index lies where in them.  A text falls into lines in
exactly one way, and the position that the walk finds is the one that counts them.

The walk looks one character ahead, since a carriage return ends a line only if no line feed comes
after it.  So the lines cannot be taken apart character by character without looking ahead either,
and `splitsInto_cons_iff` says what the first character has to do with the lines of the rest.  Each
of the other lemmas is one induction along it.
-/

namespace LetDef

/-! ## Lines -/

/-- What ends a line: both characters in a row, or either of them alone. -/
def lineBreaks : List (List Char) := [['\r', '\n'], ['\n'], ['\r']]

/-- No character of the line is part of a line break. -/
def Unbroken (cs : List Char) : Prop :=
  ∀ c ∈ cs, c ≠ '\n' ∧ c ≠ '\r'

/-- The characters fall into the lines.  A break belongs to the line that it ends, and after the
last break there is one more line, which may be empty. -/
inductive SplitsInto : List Char → List (List Char) → Prop where
  | last {line : List Char} : Unbroken line → SplitsInto line [line]
  | line {body stop rest : List Char} {lines : List (List Char)} :
      Unbroken body → stop ∈ lineBreaks → (stop = ['\r'] → rest.head? ≠ some '\n') →
      SplitsInto rest lines → SplitsInto (body ++ (stop ++ rest)) ((body ++ stop) :: lines)

/-- A line ends with the character, when `next` is the one after it. -/
def ClosesLine (c : Char) (next : Option Char) : Prop :=
  c = '\n' ∨ c = '\r' ∧ next ≠ some '\n'

instance (c : Char) (next : Option Char) : Decidable (ClosesLine c next) :=
  inferInstanceAs (Decidable (_ ∨ _))

lemma Unbroken.not_closesLine {c : Char} {cs : List Char} (h : Unbroken (c :: cs))
    (next : Option Char) : ¬ ClosesLine c next := by
  obtain ⟨hfeed, hreturn⟩ := h c List.mem_cons_self
  rintro (hc | ⟨hc, -⟩)
  · exact hfeed hc
  · exact hreturn hc

lemma Unbroken.head?_ne {cs : List Char} (h : Unbroken cs) : cs.head? ≠ some '\n' :=
  fun hhead => (h _ (List.mem_of_mem_head? hhead)).1 rfl

section Splitting

variable {c : Char} {cs rest : List Char} {lines : List (List Char)}

/-- A break by itself is a line. -/
lemma SplitsInto.stop_append (h : SplitsInto rest lines) (stop : List Char)
    (hstop : stop ∈ lineBreaks) (hnext : stop = ['\r'] → rest.head? ≠ some '\n') :
    SplitsInto (stop ++ rest) (stop :: lines) :=
  .line (List.forall_mem_nil _) hstop hnext h

lemma splitsInto_nil_iff : SplitsInto [] lines ↔ lines = [[]] := by
  constructor
  · intro h
    generalize hcs : ([] : List Char) = cs at h
    cases h with
    | last _ => rfl
    | line _ hstop _ _ =>
      obtain ⟨-, hnil⟩ := List.append_eq_nil_iff.1 hcs.symm
      obtain ⟨rfl, -⟩ := List.append_eq_nil_iff.1 hnil
      exact absurd hstop (by decide)
  · rintro rfl
    exact .last (List.forall_mem_nil _)

lemma SplitsInto.tail_of_closesLine (h : SplitsInto (c :: rest) lines)
    (hcloses : ClosesLine c rest.head?) : ∃ ls, lines = [c] :: ls ∧ SplitsInto rest ls := by
  generalize hcs : c :: rest = cs at h
  cases h with
  | last hline =>
    rw [← hcs] at hline
    exact absurd hcloses (hline.not_closesLine _)
  | @line body stop rest' ls hbody hstop hnext hrest =>
    rcases body with _ | ⟨d, body⟩
    · simp only [lineBreaks, List.mem_cons, List.not_mem_nil, or_false] at hstop
      rcases hstop with rfl | rfl | rfl
      · -- The carriage return of a break of two characters ends no line.
        obtain ⟨rfl, rfl⟩ := List.cons.inj hcs
        rcases hcloses with hc | ⟨-, hne⟩
        · exact absurd hc (by decide)
        · exact absurd rfl hne
      all_goals
        obtain ⟨rfl, rfl⟩ := List.cons.inj hcs
        exact ⟨ls, rfl, hrest⟩
    · obtain ⟨rfl, -⟩ := List.cons.inj hcs
      exact absurd hcloses (hbody.not_closesLine _)

lemma SplitsInto.tail_of_not_closesLine (h : SplitsInto (c :: rest) lines)
    (hcloses : ¬ ClosesLine c rest.head?) :
    ∃ l ls, lines = (c :: l) :: ls ∧ SplitsInto rest (l :: ls) := by
  generalize hcs : c :: rest = cs at h
  cases h with
  | last hline =>
    rw [← hcs] at hline ⊢
    exact ⟨rest, [], rfl, .last fun d hd => hline d (List.mem_cons_of_mem _ hd)⟩
  | @line body stop rest' ls hbody hstop hnext hrest =>
    rcases body with _ | ⟨d, body⟩
    · simp only [lineBreaks, List.mem_cons, List.not_mem_nil, or_false] at hstop
      rcases hstop with rfl | rfl | rfl
      · obtain ⟨rfl, rfl⟩ := List.cons.inj hcs
        exact ⟨['\n'], ls, rfl, hrest.stop_append ['\n'] (by decide) (by simp)⟩
      · obtain ⟨rfl, -⟩ := List.cons.inj hcs
        exact absurd (.inl rfl) hcloses
      · obtain ⟨rfl, rfl⟩ := List.cons.inj hcs
        exact absurd (.inr ⟨rfl, hnext rfl⟩) hcloses
    · obtain ⟨rfl, rfl⟩ := List.cons.inj hcs
      exact ⟨body ++ stop, ls, rfl,
        .line (fun e he => hbody e (List.mem_cons_of_mem _ he)) hstop hnext hrest⟩

lemma SplitsInto.cons_of_closesLine (h : SplitsInto rest lines)
    (hcloses : ClosesLine c rest.head?) :
    SplitsInto (c :: rest) ([c] :: lines) := by
  rcases hcloses with rfl | ⟨rfl, hne⟩
  · exact h.stop_append ['\n'] (by decide) (by simp)
  · exact h.stop_append ['\r'] (by decide) fun _ => hne

lemma SplitsInto.cons_of_not_closesLine {l : List Char} {ls : List (List Char)}
    (h : SplitsInto rest (l :: ls)) (hcloses : ¬ ClosesLine c rest.head?) :
    SplitsInto (c :: rest) ((c :: l) :: ls) := by
  by_cases hc : c ≠ '\n' ∧ c ≠ '\r'
  · cases h with
    | last hline => exact .last (List.forall_mem_cons.2 ⟨hc, hline⟩)
    | line hbody hstop hnext hrest =>
      exact .line (List.forall_mem_cons.2 ⟨hc, hbody⟩) hstop hnext hrest
  · -- Only a carriage return before a line feed is part of a break and ends no line.
    obtain ⟨rfl, hfeed⟩ : c = '\r' ∧ rest.head? = some '\n' := by
      simp only [ClosesLine, not_or, not_and, not_not] at hcloses hc
      exact ⟨hc hcloses.1, hcloses.2 (hc hcloses.1)⟩
    cases h with
    | last hline => exact absurd hfeed hline.head?_ne
    | @line body stop rest' _ hbody hstop _ hrest =>
      rcases body with _ | ⟨d, body⟩
      · simp only [lineBreaks, List.mem_cons, List.not_mem_nil, or_false] at hstop
        rcases hstop with rfl | rfl | rfl
        · exact absurd hfeed (by simp)
        · exact hrest.stop_append ['\r', '\n'] (by decide) (by simp)
        · exact absurd hfeed (by simp)
      · exact absurd hfeed hbody.head?_ne

/-- What the first character has to do with the lines of the rest: it is a line by itself, or it
joins the first one. -/
theorem splitsInto_cons_iff :
    SplitsInto (c :: rest) lines ↔
      if ClosesLine c rest.head? then ∃ ls, lines = [c] :: ls ∧ SplitsInto rest ls
      else ∃ l ls, lines = (c :: l) :: ls ∧ SplitsInto rest (l :: ls) := by
  split
  · next hcloses =>
    refine ⟨fun h => h.tail_of_closesLine hcloses, ?_⟩
    rintro ⟨ls, rfl, h⟩
    exact h.cons_of_closesLine hcloses
  · next hcloses =>
    refine ⟨fun h => h.tail_of_not_closesLine hcloses, ?_⟩
    rintro ⟨l, ls, rfl, h⟩
    exact h.cons_of_not_closesLine hcloses

lemma SplitsInto.ne_nil (h : SplitsInto cs lines) : lines ≠ [] := by
  cases h <;> exact List.cons_ne_nil _ _

theorem existsUnique_splitsInto (cs : List Char) : ∃! lines, SplitsInto cs lines := by
  induction cs with
  | nil => simp only [splitsInto_nil_iff, existsUnique_eq]
  | cons c rest ih =>
    obtain ⟨lines, hlines, hunique⟩ := ih
    simp only [splitsInto_cons_iff]
    split
    · refine ⟨[c] :: lines, ⟨lines, rfl, hlines⟩, ?_⟩
      rintro _ ⟨ls, rfl, hls⟩
      rw [hunique ls hls]
    · obtain ⟨l, ls, rfl⟩ := List.exists_cons_of_ne_nil hlines.ne_nil
      refine ⟨(c :: l) :: ls, ⟨l, ls, rfl, hlines⟩, ?_⟩
      rintro _ ⟨l', ls', rfl, hls'⟩
      obtain ⟨rfl, rfl⟩ := List.cons.inj (hunique _ hls')
      rfl

end Splitting

/-! ## Places in lines -/

namespace Position

/-- The index lies in the line and at the column of the position.  The end of the text counts as a
place of its last line. -/
def LiesAt (p : Position) (lines : List (List Char)) (i : Nat) : Prop :=
  ∃ (earlier : List (List Char)) (line : List Char) (later : List (List Char)) (k : Nat),
    lines = earlier ++ line :: later ∧ p = ⟨earlier.length + 1, k + 1⟩ ∧
      i = earlier.flatten.length + k ∧ (k < line.length ∨ later = [] ∧ k = line.length)

/-- The position comes before the other one: it is on an earlier line, or further left on the same
line. -/
def Before (p q : Position) : Prop :=
  p.line < q.line ∨ p.line = q.line ∧ p.column < q.column

section Places

variable {p q : Position} {lines : List (List Char)} {i j : Nat}

/-- A place on an earlier line has a smaller index. -/
lemma LiesAt.lt_of_line_lt (hp : p.LiesAt lines i) (hq : q.LiesAt lines j)
    (hlt : p.line < q.line) : i < j := by
  obtain ⟨earlier, line, later, k, rfl, rfl, rfl, hk⟩ := hp
  obtain ⟨earlier', line', later', k', hlines, rfl, rfl, -⟩ := hq
  obtain ⟨middle, hearlier⟩ : earlier ++ [line] <+: earlier' := by
    have hprefix : earlier ++ [line] <+: earlier ++ line :: later := ⟨later, List.append_assoc ..⟩
    refine List.prefix_of_prefix_length_le hprefix ⟨line' :: later', hlines.symm⟩ ?_
    simpa using hlt
  have hlater : later ≠ [] := by
    rintro rfl
    have hlength := congrArg List.length hlines
    simp only [List.length_append, List.length_cons, List.length_nil] at hlength
    simp only at hlt
    omega
  have hkline : k < line.length := hk.resolve_right fun h => hlater h.1
  rw [← hearlier]
  simp only [List.flatten_append, List.flatten_singleton, List.length_append]
  omega

/-- Places on the same line have indices that differ as their columns do. -/
lemma LiesAt.column_add (hp : p.LiesAt lines i) (hq : q.LiesAt lines j)
    (heq : p.line = q.line) : i + q.column = j + p.column := by
  obtain ⟨earlier, line, later, k, rfl, rfl, rfl, -⟩ := hp
  obtain ⟨earlier', line', later', k', hlines, rfl, rfl, -⟩ := hq
  obtain ⟨rfl, -⟩ := List.append_inj hlines (by simpa using heq)
  simp only
  omega

lemma LiesAt.before (hp : p.LiesAt lines i) (hq : q.LiesAt lines j) (hlt : i < j) :
    p.Before q := by
  rcases Nat.lt_trichotomy p.line q.line with hline | hline | hline
  · exact .inl hline
  · have hcolumn := hp.column_add hq hline
    exact .inr ⟨hline, by omega⟩
  · have hgt := hq.lt_of_line_lt hp hline
    omega

lemma LiesAt.unique (hp : p.LiesAt lines i) (hq : q.LiesAt lines i) : p = q := by
  rcases Nat.lt_trichotomy p.line q.line with hline | hline | hline
  · exact absurd (hp.lt_of_line_lt hq hline) (Nat.lt_irrefl i)
  · have hcolumn := hp.column_add hq hline
    obtain ⟨line, column⟩ := p
    obtain ⟨line', column'⟩ := q
    simp only at hline hcolumn
    rw [hline, show column = column' by omega]
  · exact absurd (hq.lt_of_line_lt hp hline) (Nat.lt_irrefl i)

lemma Before.ne (h : p.Before q) : p ≠ q := by
  rintro rfl
  rcases h with hline | ⟨-, hcolumn⟩
  · exact Nat.lt_irrefl _ hline
  · exact Nat.lt_irrefl _ hcolumn

end Places

/-! ## The walk over a text -/

lemma walk_zero (p : Position) (cs : List Char) : walk p cs 0 = p := by
  cases cs <;> rfl

/-- A step of the walk goes to the next line if the character ends one. -/
lemma walk_succ (p : Position) (c : Char) (rest : List Char) (o : Nat) :
    walk p (c :: rest) (o + 1) =
      walk (if ClosesLine c rest.head? then p.nextLine else p.nextColumn) rest o := by
  by_cases hfeed : c = '\r' ∧ rest.head? = some '\n'
  · obtain ⟨rfl, hhead⟩ := hfeed
    obtain ⟨rest, rfl⟩ := List.head?_eq_some_iff.1 hhead
    simp [walk, ClosesLine]
  · rw [walk.eq_4]
    · congr 1
      refine if_congr ?_ rfl rfl
      simp only [ClosesLine]
      exact or_congr_right ⟨fun hc => ⟨hc, fun hhead => hfeed ⟨hc, hhead⟩⟩, And.left⟩
    · rintro rest' rfl rfl
      exact hfeed ⟨rfl, rfl⟩

/-- The walk finds the place in the lines, also where it starts in the middle of a line: `passed` is
what stands before it there, and `earlier` are the lines above. -/
lemma liesAt_walk {cs l : List Char} {ls : List (List Char)} (h : SplitsInto cs (l :: ls))
    (earlier : List (List Char)) (passed : List Char) (o : Nat) :
    (walk ⟨earlier.length + 1, passed.length + 1⟩ cs o).LiesAt
      (earlier ++ (passed ++ l) :: ls)
      (earlier.flatten.length + passed.length + min o cs.length) := by
  induction cs generalizing l ls earlier passed o with
  | nil =>
    obtain ⟨rfl, rfl⟩ := List.cons.inj (splitsInto_nil_iff.1 h)
    exact ⟨earlier, passed ++ [], [], passed.length, rfl, rfl, by simp, .inr ⟨rfl, by simp⟩⟩
  | cons c rest ih =>
    have hcons := splitsInto_cons_iff.1 h
    cases o with
    | zero =>
      -- The first line is not empty, as it has the first character.
      have hne : l ≠ [] := by
        rintro rfl
        split at hcons
        · obtain ⟨ls, hls, -⟩ := hcons
          exact absurd (List.cons.inj hls).1 (by simp)
        · obtain ⟨l, ls, hls, -⟩ := hcons
          exact absurd (List.cons.inj hls).1 (by simp)
      rw [walk_zero]
      refine ⟨earlier, passed ++ l, ls, passed.length, rfl, rfl, by simp, .inl ?_⟩
      rw [List.length_append]
      exact Nat.lt_add_of_pos_right (List.length_pos_iff.2 hne)
    | succ o =>
      rw [walk_succ]
      split at hcons
      · next hcloses =>
        obtain ⟨ls, hls, hrest⟩ := hcons
        obtain ⟨rfl, rfl⟩ := List.cons.inj hls
        obtain ⟨l, ls, rfl⟩ := List.exists_cons_of_ne_nil hrest.ne_nil
        have hwalk := ih hrest (earlier ++ [passed ++ [c]]) [] o
        rw [if_pos hcloses]
        simp only [List.length_append, List.length_cons, List.length_nil, List.append_assoc,
          List.cons_append, List.nil_append, List.flatten_append, List.flatten_singleton,
          Nat.zero_add, Nat.add_zero] at hwalk
        refine (congrArg _ ?_).mp hwalk
        rw [List.length_cons]
        omega
      · next hcloses =>
        obtain ⟨l, ls, hls, hrest⟩ := hcons
        obtain ⟨rfl, rfl⟩ := List.cons.inj hls
        have hwalk := ih hrest earlier (passed ++ [c]) o
        rw [if_neg hcloses]
        simp only [List.length_append, List.length_cons, List.length_nil, List.append_assoc,
          List.cons_append, List.nil_append] at hwalk
        refine (congrArg _ ?_).mp hwalk
        rw [List.length_cons]
        omega

theorem liesAt_locate {text : String} {lines : List (List Char)}
    (h : SplitsInto text.toList lines) (o : Nat) :
    (locate text o).LiesAt lines (min o text.length) := by
  obtain ⟨l, ls, rfl⟩ := List.exists_cons_of_ne_nil h.ne_nil
  have hwalk := liesAt_walk h [] [] o
  simp only [List.nil_append, List.flatten_nil, List.length_nil, Nat.zero_add,
    String.length_toList] at hwalk
  exact hwalk

/-! ## What the walk depends on -/

/-- A carriage return is the last of the first `o` characters, and a line feed comes after it. -/
def BreaksAt (cs : List Char) (o : Nat) : Prop :=
  ∃ k, o = k + 1 ∧ cs[k]? = some '\r' ∧ cs[k + 1]? = some '\n'

lemma breaksAt_cons_succ (c : Char) (cs : List Char) (o : Nat) :
    BreaksAt (c :: cs) (o + 2) ↔ BreaksAt cs (o + 1) := by
  simp [BreaksAt]

lemma breaksAt_cons_one (c : Char) (cs : List Char) :
    BreaksAt (c :: cs) 1 ↔ c = '\r' ∧ cs.head? = some '\n' := by
  simp [BreaksAt, List.head?_eq_getElem?]

lemma walk_congr {cs ds : List Char} {o : Nat} (p : Position) (htake : cs.take o = ds.take o)
    (hbreaks : BreaksAt cs o ↔ BreaksAt ds o) : walk p cs o = walk p ds o := by
  induction o generalizing p cs ds with
  | zero => rw [walk_zero, walk_zero]
  | succ o ih =>
    rcases cs with _ | ⟨c, cs⟩
    · obtain rfl : ds = [] := by simpa using htake.symm
      rfl
    rcases ds with _ | ⟨d, ds⟩
    · exact absurd htake (by simp)
    obtain rfl : c = d := (List.cons.inj htake).1
    have hrest : cs.take o = ds.take o := (List.cons.inj htake).2
    -- The character after the first one is looked at, and it may be beyond the first `o`.
    have hcloses : ClosesLine c cs.head? ↔ ClosesLine c ds.head? := by
      rcases o with _ | o
      · rw [breaksAt_cons_one, breaksAt_cons_one] at hbreaks
        unfold ClosesLine
        tauto
      · have hhead : cs.head? = ds.head? := by
          simpa [List.head?_take] using congrArg List.head? hrest
        rw [hhead]
    rw [walk_succ, walk_succ, if_congr hcloses rfl rfl]
    refine ih _ hrest ?_
    rcases o with _ | o
    · simp [BreaksAt]
    · rwa [breaksAt_cons_succ, breaksAt_cons_succ] at hbreaks

/-- A text falls into lines in one way, and the position of an index counts them.  So positions
follow one another as indices do, up to the end of the text, where they stop.  A position depends
on the characters before it, and on what is ahead only if it stands in the middle of a break. -/
theorem locate_countsLines (text : String) :
    (∃! lines, SplitsInto text.toList lines) ∧
    (∀ lines, SplitsInto text.toList lines → ∀ o p,
      locate text o = p ↔ p.LiesAt lines (min o text.length)) ∧
    (∀ o o', o < o' → o' ≤ text.length → (locate text o).Before (locate text o')) ∧
    Set.InjOn (locate text) (Set.Iic text.length) ∧
    (∀ o, text.length ≤ o → locate text o = locate text text.length) ∧
    ∀ (other : String) (o : Nat), text.toList.take o = other.toList.take o →
      (BreaksAt text.toList o ↔ BreaksAt other.toList o) → locate text o = locate other o := by
  obtain ⟨lines, hlines, hunique⟩ := existsUnique_splitsInto text.toList
  have hbefore : ∀ o o', o < o' → o' ≤ text.length → (locate text o).Before (locate text o') := by
    intro o o' hlt hle
    exact (liesAt_locate hlines o).before (liesAt_locate hlines o') (by omega)
  refine ⟨⟨lines, hlines, hunique⟩, fun lines hlines o p => ⟨?_, fun hp => ?_⟩, hbefore, ?_, ?_,
    fun other o htake hbreaks => walk_congr origin htake hbreaks⟩
  · rintro rfl
    exact liesAt_locate hlines o
  · exact (liesAt_locate hlines o).unique hp
  · intro o ho o' ho' heq
    rcases Nat.lt_trichotomy o o' with hlt | rfl | hlt
    · exact absurd heq (hbefore o o' hlt ho').ne
    · rfl
    · exact absurd heq.symm (hbefore o' o hlt ho).ne
  · intro o hle
    have hplace := liesAt_locate hlines o
    have hend := liesAt_locate hlines text.length
    rw [Nat.min_eq_right hle] at hplace
    rw [Nat.min_self] at hend
    exact hplace.unique hend

/-- The index of the line feed in a break of two characters, the places on both sides of a break
of one, an index behind the end, and a text that goes on in another way. -/
theorem locate_countsLines_breaks :
    (∃ lines, SplitsInto "a\r\n\rb".toList lines ∧ LiesAt ⟨1, 3⟩ lines 2) ∧
    (locate "a\r\n\rb" 3).Before (locate "a\r\n\rb" 4) ∧
    locate "a\r\n\rb" 9 = locate "a\r\n\rb" 5 ∧
    locate "a\r\n\rb" 2 = locate "a\r\n+" 2 := by
  obtain ⟨⟨lines, hlines, -⟩, hplace, hbefore, -, hend, hdepends⟩ :=
    locate_countsLines "a\r\n\rb"
  refine ⟨⟨lines, hlines, (hplace lines hlines 2 _).1 rfl⟩, hbefore 3 4 (by decide) (by decide),
    hend 9 (by decide), hdepends "a\r\n+" 2 (by decide) ?_⟩
  simp [BreaksAt]

/-- Of two carriage returns before a line feed, the first one ends a line by itself. -/
example : (List.range 5).map (locate "\r\r\n") = [⟨1, 1⟩, ⟨2, 1⟩, ⟨2, 2⟩, ⟨3, 1⟩, ⟨3, 1⟩] := rfl

end Position

end LetDef
