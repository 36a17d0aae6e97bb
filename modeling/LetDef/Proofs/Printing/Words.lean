import LetDef.Proofs.Lexical.Spacing
import LetDef.Proofs.Printing.Values

/-!
# The words of well-formed programs

Every word that `Program.render` writes for a well-formed program is a word of the language: a name,
a word for a value, an operator, or one of the words that the grammar itself brings in.  So the text
of the program is cut into exactly those words.
-/

namespace LetDef

/-! ## Fixed words, names and values -/

/-- The words that the grammar itself brings in. -/
def fixedWords : List String :=
  ["(", ")", ",", ".", ":", ";", "=", "LET", "IF", "DO", "ELSE", "END", "FOR", "IN", "WHILE",
    "RETURN", "DEF", "AND", "OR", "<", "<=", ">", ">=", "==", "!=", "+", "-", "*", "/"]

/-- The words that the grammar brings in are tokens by themselves. -/
lemma isWord_of_mem_fixedWords {w : String} (h : w ∈ fixedWords) : IsWord w := by
  have hall : ∀ w ∈ fixedWords, isWholeToken w.toList := by decide
  exact isWord_of_isWholeToken (hall w h)

lemma isWord_of_isIdentifier {name : String} (h : IsIdentifier name) : IsWord name :=
  isWord_of_spelling h (by decide)

lemma Literal.isWord_word {v : Literal} (h : v.WellFormed) : IsWord v.word := by
  apply isWord_of_spelling (v.spelling_word h)
  cases v <;> simp [kind]

lemma isWord_operator {level : Level} {op : String} (h : op ∈ level.operators) : IsWord op := by
  have hall : ∀ op ∈ level.operators, op ∈ fixedWords := by cases level <;> decide
  exact isWord_of_mem_fixedWords (hall op h)

/-! ## Trees -/

/-- The words of a list are those of its items and the commas between them. -/
lemma isWord_listWords {es : List Expr} (h : ∀ e ∈ es, ∀ w ∈ e.words, IsWord w) :
    ∀ w ∈ Expr.listWords es, IsWord w := by
  have hcomma : IsWord "," := isWord_of_mem_fixedWords (by decide)
  induction es with
  | nil => exact List.forall_mem_nil _
  | cons e es ih =>
    obtain ⟨he, hes⟩ := List.forall_mem_cons.1 h
    rcases es with _ | ⟨f, es⟩
    · exact he
    · rw [Expr.listWords, List.forall_mem_append, List.forall_mem_cons]
      exact ⟨he, hcomma, ih hes⟩

/-- An expression is written in words, by induction on how it is well-formed. -/
lemma Expr.WellFormed.isWord {e : Expr} (h : e.WellFormed) : ∀ w ∈ e.words, IsWord w := by
  have hopen : IsWord "(" := isWord_of_mem_fixedWords (by decide)
  have hclose : IsWord ")" := isWord_of_mem_fixedWords (by decide)
  have hdot : IsWord "." := isWord_of_mem_fixedWords (by decide)
  induction h with
  | literal hv =>
    intro w hw
    rw [List.mem_singleton.1 hw]
    exact Literal.isWord_word hv
  | group _ ih =>
    simp only [Expr.words, List.forall_mem_cons, List.forall_mem_append]
    exact ⟨hopen, ih, hclose, List.forall_mem_nil _⟩
  | binary hop _ _ _ _ ihLeft ihRight =>
    simp only [Expr.words, List.forall_mem_cons, List.forall_mem_append]
    exact ⟨ihLeft, isWord_operator hop, ihRight⟩
  | var hname _ =>
    intro w hw
    rw [List.mem_singleton.1 hw]
    exact isWord_of_isIdentifier hname
  | member _ _ hname ih =>
    simp only [Expr.words, List.forall_mem_cons, List.forall_mem_append]
    exact ⟨ih, hdot, isWord_of_isIdentifier hname, List.forall_mem_nil _⟩
  | call hname _ _ ih =>
    simp only [Expr.words, List.forall_mem_cons, List.forall_mem_append]
    exact ⟨isWord_of_isIdentifier hname, hopen, isWord_listWords ih, hclose, List.forall_mem_nil _⟩
  | invoke _ _ hname _ ih ihArguments =>
    simp only [Expr.words, List.forall_mem_cons, List.forall_mem_append]
    exact ⟨ih, hdot, isWord_of_isIdentifier hname, hopen, isWord_listWords ihArguments, hclose,
      List.forall_mem_nil _⟩

lemma Binding.WellFormed.isWord {b : Binding} (h : b.WellFormed) : ∀ w ∈ b.words, IsWord w := by
  have hlet : IsWord "LET" := isWord_of_mem_fixedWords (by decide)
  have hcolon : IsWord ":" := isWord_of_mem_fixedWords (by decide)
  have hequals : IsWord "=" := isWord_of_mem_fixedWords (by decide)
  have hsemicolon : IsWord ";" := isWord_of_mem_fixedWords (by decide)
  rcases b with ⟨name, typeName, value⟩
  have htype : ∀ w ∈ typeWords typeName, IsWord w := by
    cases typeName with
    | none => exact List.forall_mem_nil _
    | some typeName =>
      simp only [typeWords, List.forall_mem_cons]
      exact ⟨hcolon, isWord_of_isIdentifier (h.typeName _ rfl), List.forall_mem_nil _⟩
  have hvalue : ∀ w ∈ valueWords value, IsWord w := by
    cases value with
    | none => exact List.forall_mem_nil _
    | some e =>
      simp only [valueWords, List.forall_mem_cons]
      exact ⟨hequals, (h.value _ rfl).isWord⟩
  simp only [words, List.forall_mem_cons, List.forall_mem_append]
  exact ⟨hlet, isWord_of_isIdentifier h.name, htype, hvalue, hsemicolon, List.forall_mem_nil _⟩

lemma isWord_blockWords {ss : List Stmt} (h : ∀ s ∈ ss, ∀ w ∈ s.words, IsWord w) :
    ∀ w ∈ Stmt.blockWords ss, IsWord w := by
  induction ss with
  | nil => exact List.forall_mem_nil _
  | cons s ss ih =>
    obtain ⟨hs, hss⟩ := List.forall_mem_cons.1 h
    rw [Stmt.blockWords, List.forall_mem_append]
    exact ⟨hs, ih hss⟩

/-- The words of an `ELSE` and its block, if the block is not empty. -/
def elseWords (ss : List Stmt) : List String :=
  if ss.isEmpty then [] else "ELSE" :: Stmt.blockWords ss

lemma isWord_elseWords {ss : List Stmt} (h : ∀ s ∈ ss, ∀ w ∈ s.words, IsWord w) :
    ∀ w ∈ elseWords ss, IsWord w := by
  unfold elseWords
  split
  · exact List.forall_mem_nil _
  · rw [List.forall_mem_cons]
    exact ⟨isWord_of_mem_fixedWords (by decide), isWord_blockWords h⟩

/-- A statement is written in words, and so are the blocks in it. -/
lemma Stmt.WellFormed.isWord {enders : List String} {s : Stmt} (h : s.WellFormed enders) :
    ∀ w ∈ s.words, IsWord w := by
  have hfixed : ∀ w ∈ fixedWords, IsWord w := fun w hw => isWord_of_mem_fixedWords hw
  induction h with
  | expression he _ =>
    simp only [Stmt.words, List.forall_mem_append, List.forall_mem_singleton]
    exact ⟨he.isWord, hfixed _ (by decide)⟩
  | declaration hb => exact hb.isWord
  | assignment he _ hf =>
    simp only [Stmt.words, List.forall_mem_append, List.forall_mem_cons]
    exact ⟨he.isWord, hfixed _ (by decide), hf.isWord, hfixed _ (by decide),
      List.forall_mem_nil _⟩
  | conditional he _ _ ihThen ihElse =>
    simp only [Stmt.words, List.forall_mem_append, List.forall_mem_cons]
    exact ⟨hfixed _ (by decide), he.isWord, hfixed _ (by decide), isWord_blockWords ihThen,
      isWord_elseWords ihElse, hfixed _ (by decide), List.forall_mem_nil _⟩
  | forEach hname he _ ih =>
    simp only [Stmt.words, List.forall_mem_append, List.forall_mem_cons]
    exact ⟨hfixed _ (by decide), isWord_of_isIdentifier hname, hfixed _ (by decide), he.isWord,
      hfixed _ (by decide), isWord_blockWords ih, hfixed _ (by decide), List.forall_mem_nil _⟩
  | whileLoop he _ ih =>
    simp only [Stmt.words, List.forall_mem_append, List.forall_mem_cons]
    exact ⟨hfixed _ (by decide), he.isWord, hfixed _ (by decide), isWord_blockWords ih,
      hfixed _ (by decide), List.forall_mem_nil _⟩
  | @result _ value hvalue =>
    cases value with
    | none =>
      simp only [Stmt.words, List.forall_mem_cons]
      exact ⟨hfixed _ (by decide), hfixed _ (by decide), List.forall_mem_nil _⟩
    | some e =>
      simp only [Stmt.words, List.forall_mem_append, List.forall_mem_cons]
      exact ⟨hfixed _ (by decide), (hvalue e rfl).isWord, hfixed _ (by decide),
        List.forall_mem_nil _⟩

/-- The names of parameters and the commas between them are words. -/
lemma isWord_names {names : List String} (h : ∀ name ∈ names, IsIdentifier name) :
    ∀ w ∈ names.intersperse ",", IsWord w := by
  induction names with
  | nil => exact List.forall_mem_nil _
  | cons name names ih =>
    obtain ⟨hname, hnames⟩ := List.forall_mem_cons.1 h
    rcases names with _ | ⟨other, names⟩
    · simpa using isWord_of_isIdentifier hname
    · rw [List.intersperse_cons_cons, List.forall_mem_cons, List.forall_mem_cons]
      exact ⟨isWord_of_isIdentifier hname, isWord_of_mem_fixedWords (by decide), ih hnames⟩

lemma Method.WellFormed.isWord {m : Method} (h : m.WellFormed) : ∀ w ∈ m.words, IsWord w := by
  have hfixed : ∀ w ∈ fixedWords, IsWord w := fun w hw => isWord_of_mem_fixedWords hw
  simp only [words, List.forall_mem_append, List.forall_mem_cons]
  exact ⟨hfixed _ (by decide), isWord_of_isIdentifier h.name, hfixed _ (by decide),
    isWord_names h.parameters, hfixed _ (by decide), hfixed _ (by decide),
    isWord_blockWords fun s hs => (h.statements s hs).isWord, hfixed _ (by decide),
    List.forall_mem_nil _⟩

lemma Program.WellFormed.isWord {p : Program} (h : p.WellFormed) :
    ∀ w ∈ p.words, IsWord w := by
  rw [words, List.forall_mem_append]
  constructor
  · intro w hw
    obtain ⟨b, hb, hw⟩ := List.mem_flatMap.1 hw
    exact (h.fields b hb).isWord w hw
  · intro w hw
    obtain ⟨m, hm, hw⟩ := List.mem_flatMap.1 hw
    exact (h.methods m hm).isWord w hw

/-- The text of a well-formed program is cut into the words that it was put together from. -/
theorem Program.WellFormed.tokenize_render {p : Program} (h : p.WellFormed) :
    ∃ ts, tokenize p.render = .ok ts ∧ ts.map Token.literal = p.words :=
  tokenize_words h.isWord

end LetDef
