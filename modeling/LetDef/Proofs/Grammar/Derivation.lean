import Mathlib
import LetDef.Grammar.Expression
import LetDef.Program.Basic

/-!
# The grammar

`Derives ts phrase` says that the tokens `ts` spell a phrase, from beginning to end.  A `Phrase` is
a part of the language together with the tree that it stands for, so one relation covers all parts
and an induction over derivations has one case for each production.

The productions say what may stand where and nothing of how it is found.  A word or a mark stands
for any token with that literal.  Operators of one level nest to the left, because the left operand
of an operator may be of the same level and the right one may not; members and calls form chains in
the same way.

Words are no reserved names: any identifier may be a name.  What keeps the grammar unambiguous are
three side conditions.  The constants are no variables (`IsVariable`); a statement that starts with
an expression starts with none of `statementWords`; and a statement in a block starts with none of
the words that end the block.
-/

namespace LetDef

/-! ## Parts of phrases -/

/-- How tightly an expression holds together. -/
inductive Rank where
  /-- Operators of the level, or anything tighter. -/
  | level (level : Level)
  /-- Chains of members and calls, or anything tighter. -/
  | secondary
  /-- No operators and no chains. -/
  | primary
deriving DecidableEq

/-- The rank of whole expressions. -/
def Rank.whole : Rank := .level .logical

/-- The rank of what stands between the operators of a level. -/
def Level.operand : Level → Rank
  | logical => .level .equality
  | equality => .level .additive
  | additive => .level .multiplicative
  | multiplicative => .secondary

/-- The constants, which are no variables. -/
def constantWords : List String := ["NIL", "TRUE", "FALSE"]

/-- The words that decide on the form of a statement. -/
def statementWords : List String := ["LET", "IF", "FOR", "WHILE", "RETURN"]

/-- The words that end a block before an `ELSE`. -/
def thenEnders : List String := ["ELSE", "END"]

/-- The words that end any other block. -/
def blockEnders : List String := ["END"]

/-- The first token, if there is one, is none of the words. -/
def StartsOutside (words : List String) (ts : List Token) : Prop :=
  ∀ t ∈ ts.head?, t.literal ∉ words

/-- A token that stands for a value. -/
inductive Denotes (t : Token) : Literal → Prop where
  | nil : t.literal = "NIL" → Denotes t .nil
  | true : t.literal = "TRUE" → Denotes t (.bool true)
  | false : t.literal = "FALSE" → Denotes t (.bool false)
  | integer {value : Int} : t.kind = .integer → Numeral.ofToken? t.literal = some value →
      Denotes t (.integer value)
  | decimal {value : Decimal} : t.kind = .decimal → Decimal.ofToken? t.literal = some value →
      Denotes t (.decimal value)
  | character {value : Char} : t.kind = .character →
      Quoted.decode '\'' t.literal = some (String.ofList [value]) → Denotes t (.character value)
  | string {value : String} : t.kind = .string → Quoted.decode '"' t.literal = some value →
      Denotes t (.string value)

/-- A token that names a variable or a function. -/
def IsVariable (t : Token) : Prop :=
  t.kind = .identifier ∧ t.literal ∉ constantWords

/-- One phrase or more, with commas between them. -/
inductive Separated {α : Type} (P : List Token → α → Prop) : List Token → List α → Prop where
  | one {ts : List Token} {a : α} : P ts a → Separated P ts [a]
  | more {ts us : List Token} {comma : Token} {a : α} {as : List α} :
      P ts a → comma.literal = "," → Separated P us as → Separated P (ts ++ comma :: us) (a :: as)

/-- Any number of phrases with commas between them. -/
def Listed {α : Type} (P : List Token → α → Prop) (ts : List Token) (as : List α) : Prop :=
  ts = [] ∧ as = [] ∨ Separated P ts as

/-- Any number of phrases, one after the other. -/
inductive Sequence {α : Type} (P : List Token → α → Prop) : List Token → List α → Prop where
  | nil : Sequence P [] []
  | cons {ts us : List Token} {a : α} {as : List α} :
      P ts a → Sequence P us as → Sequence P (ts ++ us) (a :: as)

lemma Sequence.mono {α : Type} {P Q : List Token → α → Prop} {ts : List Token} {as : List α}
    (h : Sequence P ts as) (himp : ∀ ts a, P ts a → Q ts a) : Sequence Q ts as := by
  induction h with
  | nil => exact .nil
  | cons hp _ ih => exact .cons (himp _ _ hp) ih

lemma Separated.and_tokens {α : Type} {P : List Token → α → Prop} {Q : Token → Prop}
    {ts : List Token} {as : List α} (h : Separated P ts as) (hts : ∀ t ∈ ts, Q t) :
    Separated (fun ts a => P ts a ∧ ∀ t ∈ ts, Q t) ts as := by
  induction h with
  | one hp => exact .one ⟨hp, hts⟩
  | more hp hcomma _ ih =>
    rw [List.forall_mem_append, List.forall_mem_cons] at hts
    exact .more ⟨hp, hts.1⟩ hcomma (ih hts.2.2)

lemma Sequence.and_all {α : Type} {P : List Token → α → Prop} {Q : Token → Prop}
    {R : α → Prop} {ts : List Token} {as : List α} (h : Sequence P ts as) (hts : ∀ t ∈ ts, Q t)
    (has : ∀ a ∈ as, R a) : Sequence (fun ts a => P ts a ∧ (∀ t ∈ ts, Q t) ∧ R a) ts as := by
  induction h with
  | nil => exact .nil
  | cons hp _ ih =>
    rw [List.forall_mem_append] at hts
    rw [List.forall_mem_cons] at has
    exact .cons ⟨hp, hts.1, has.1⟩ (ih hts.2 has.2)

lemma Sequence.eq_nil {α : Type} {P : List Token → α → Prop} {ts : List Token}
    (h : Sequence P ts []) : ts = [] := by
  cases h
  rfl

lemma Sequence.append {α : Type} {P : List Token → α → Prop} {ts us : List Token} {as bs : List α}
    (h : Sequence P ts as) (h' : Sequence P us bs) : Sequence P (ts ++ us) (as ++ bs) := by
  induction h with
  | nil => exact h'
  | cons hp _ ih =>
    rw [List.append_assoc]
    exact .cons hp ih

/-- A token that is an identifier. -/
def IsName (ts : List Token) (name : String) : Prop :=
  ∃ t, ts = [t] ∧ t.kind = .identifier ∧ t.literal = name

/-- A type after a colon, or nothing. -/
inductive TypePart : List Token → Option String → Prop where
  | none : TypePart [] none
  | some {colon t : Token} : colon.literal = ":" → t.kind = .identifier →
      TypePart [colon, t] (some t.literal)

/-! ## Phrases -/

/-- A part of the language and the tree that it stands for. -/
inductive Phrase where
  /-- An expression of a rank. -/
  | expression (rank : Rank) (value : Expr)
  /-- One expression or more with commas between them. -/
  | expressions (values : List Expr)
  /-- What stands between the parentheses of a call. -/
  | arguments (values : List Expr)
  /-- A value after an equals sign, or nothing. -/
  | value (value : Option Expr)
  /-- A field of a program, or a declaration among statements. -/
  | field (binding : Binding)
  /-- A statement. -/
  | statement (value : Stmt)
  /-- Statements of which none starts with one of the words. -/
  | block (enders : List String) (values : List Stmt)
  /-- A block between `DO` and `END`. -/
  | body (values : List Stmt)
  /-- A block after `ELSE`, or nothing. -/
  | otherwise (values : List Stmt)
  /-- A method. -/
  | method (value : Method)
  /-- A whole program. -/
  | program (value : Program)

/-- The tokens spell the phrase. -/
inductive Derives : List Token → Phrase → Prop where
  -- primary expressions
  | literal {t : Token} {v : Literal} : Denotes t v →
      Derives [t] (.expression .primary (.literal v))
  | group {l r : Token} {ts : List Token} {e : Expr} :
      l.literal = "(" → Derives ts (.expression .whole e) → r.literal = ")" →
      Derives (l :: (ts ++ [r])) (.expression .primary (.group e))
  | var {t : Token} : IsVariable t → Derives [t] (.expression .primary (.var t.literal))
  | call {t l r : Token} {ts : List Token} {es : List Expr} :
      IsVariable t → l.literal = "(" → Derives ts (.arguments es) → r.literal = ")" →
      Derives (t :: l :: (ts ++ [r])) (.expression .primary (.call t.literal es))
  -- chains of members and calls
  | ofPrimary {ts : List Token} {e : Expr} : Derives ts (.expression .primary e) →
      Derives ts (.expression .secondary e)
  | member {ts : List Token} {e : Expr} {dot t : Token} :
      Derives ts (.expression .secondary e) → dot.literal = "." → t.kind = .identifier →
      Derives (ts ++ [dot, t]) (.expression .secondary (.member e t.literal))
  | invoke {ts us : List Token} {e : Expr} {dot t l r : Token} {es : List Expr} :
      Derives ts (.expression .secondary e) → dot.literal = "." → t.kind = .identifier →
      l.literal = "(" → Derives us (.arguments es) → r.literal = ")" →
      Derives (ts ++ dot :: t :: l :: (us ++ [r])) (.expression .secondary (.invoke e t.literal es))
  -- operators
  | ofOperand {level : Level} {ts : List Token} {e : Expr} :
      Derives ts (.expression level.operand e) → Derives ts (.expression (.level level) e)
  | binary {level : Level} {ts us : List Token} {e f : Expr} {op : Token} :
      Derives ts (.expression (.level level) e) → op.literal ∈ level.operators →
      Derives us (.expression level.operand f) →
      Derives (ts ++ op :: us) (.expression (.level level) (.binary op.literal e f))
  -- arguments
  | oneExpression {ts : List Token} {e : Expr} : Derives ts (.expression .whole e) →
      Derives ts (.expressions [e])
  | moreExpressions {ts us : List Token} {comma : Token} {e : Expr} {es : List Expr} :
      Derives ts (.expression .whole e) → comma.literal = "," → Derives us (.expressions es) →
      Derives (ts ++ comma :: us) (.expressions (e :: es))
  | noArguments : Derives [] (.arguments [])
  | arguments {ts : List Token} {es : List Expr} : Derives ts (.expressions es) →
      Derives ts (.arguments es)
  -- fields and declarations
  | noValue : Derives [] (.value none)
  | value {eq : Token} {ts : List Token} {e : Expr} :
      eq.literal = "=" → Derives ts (.expression .whole e) → Derives (eq :: ts) (.value (some e))
  | field {word t semicolon : Token} {ts us : List Token} {typeName : Option String}
      {v : Option Expr} :
      word.literal = "LET" → t.kind = .identifier → TypePart ts typeName → Derives us (.value v) →
      semicolon.literal = ";" →
      Derives (word :: t :: (ts ++ (us ++ [semicolon]))) (.field ⟨t.literal, typeName, v⟩)
  -- statements
  | declaration {ts : List Token} {b : Binding} : Derives ts (.field b) →
      Derives ts (.statement (.declaration b))
  | conditional {word doWord endWord : Token} {ts us vs : List Token} {e : Expr}
      {thenBlock elseBlock : List Stmt} :
      word.literal = "IF" → Derives ts (.expression .whole e) → doWord.literal = "DO" →
      Derives us (.block thenEnders thenBlock) → Derives vs (.otherwise elseBlock) →
      endWord.literal = "END" →
      Derives (word :: (ts ++ doWord :: (us ++ (vs ++ [endWord]))))
        (.statement (.conditional e thenBlock elseBlock))
  | forEach {word t inWord : Token} {ts us : List Token} {e : Expr} {body : List Stmt} :
      word.literal = "FOR" → t.kind = .identifier → inWord.literal = "IN" →
      Derives ts (.expression .whole e) → Derives us (.body body) →
      Derives (word :: t :: inWord :: (ts ++ us)) (.statement (.forEach t.literal e body))
  | whileLoop {word : Token} {ts us : List Token} {e : Expr} {body : List Stmt} :
      word.literal = "WHILE" → Derives ts (.expression .whole e) → Derives us (.body body) →
      Derives (word :: (ts ++ us)) (.statement (.whileLoop e body))
  | noResult {word semicolon : Token} : word.literal = "RETURN" → semicolon.literal = ";" →
      Derives [word, semicolon] (.statement (.result none))
  | result {word semicolon : Token} {ts : List Token} {e : Expr} :
      word.literal = "RETURN" → Derives ts (.expression .whole e) → semicolon.literal = ";" →
      Derives (word :: (ts ++ [semicolon])) (.statement (.result (some e)))
  | expression {semicolon : Token} {ts : List Token} {e : Expr} :
      Derives ts (.expression .whole e) → StartsOutside statementWords ts →
      semicolon.literal = ";" → Derives (ts ++ [semicolon]) (.statement (.expression e))
  | assignment {eq semicolon : Token} {ts us : List Token} {e f : Expr} :
      Derives ts (.expression .whole e) → StartsOutside statementWords ts → eq.literal = "=" →
      Derives us (.expression .whole f) → semicolon.literal = ";" →
      Derives (ts ++ eq :: (us ++ [semicolon])) (.statement (.assignment e f))
  -- blocks
  | noStatements {enders : List String} : Derives [] (.block enders [])
  | statements {enders : List String} {ts us : List Token} {s : Stmt} {ss : List Stmt} :
      Derives ts (.statement s) → StartsOutside enders ts → Derives us (.block enders ss) →
      Derives (ts ++ us) (.block enders (s :: ss))
  | body {doWord endWord : Token} {ts : List Token} {ss : List Stmt} :
      doWord.literal = "DO" → Derives ts (.block blockEnders ss) → endWord.literal = "END" →
      Derives (doWord :: (ts ++ [endWord])) (.body ss)
  | noElse : Derives [] (.otherwise [])
  | otherwise {word : Token} {ts : List Token} {ss : List Stmt} :
      word.literal = "ELSE" → Derives ts (.block blockEnders ss) →
      Derives (word :: ts) (.otherwise ss)
  -- methods and programs
  | method {word t l r : Token} {ts us : List Token} {names : List String} {ss : List Stmt} :
      word.literal = "DEF" → t.kind = .identifier → l.literal = "(" →
      Listed IsName ts names → r.literal = ")" →
      Derives us (.body ss) →
      Derives (word :: t :: l :: (ts ++ r :: us)) (.method ⟨t.literal, names, ss⟩)
  | noMethods : Derives [] (.program ⟨[], []⟩)
  | methods {ts us : List Token} {m : Method} {ms : List Method} :
      Derives ts (.method m) → Derives us (.program ⟨[], ms⟩) →
      Derives (ts ++ us) (.program ⟨[], m :: ms⟩)
  | fields {ts us : List Token} {b : Binding} {bs : List Binding} {ms : List Method} :
      Derives ts (.field b) → Derives us (.program ⟨bs, ms⟩) →
      Derives (ts ++ us) (.program ⟨b :: bs, ms⟩)

/-! ## How phrases start -/

lemma startsOutside_append {words : List String} {ts : List Token} (hne : ts ≠ [])
    (us : List Token) : StartsOutside words (ts ++ us) ↔ StartsOutside words ts := by
  obtain ⟨t, ts, rfl⟩ := List.exists_cons_of_ne_nil hne
  exact Iff.rfl

/-- A token that an expression can start with. -/
def Opens (t : Token) : Prop :=
  (∃ v, Denotes t v) ∨ t.literal = "(" ∨ t.kind = .identifier

/-- The phrase, if it is an expression, starts with a token that can open one. -/
def Phrase.StartsOpened (ts : List Token) : Phrase → Prop
  | .expression _ _ => ∃ t us, ts = t :: us ∧ Opens t
  | _ => True

theorem Derives.startsOpened {ts : List Token} {phrase : Phrase} (h : Derives ts phrase) :
    phrase.StartsOpened ts := by
  induction h with
  | literal hv => exact ⟨_, _, rfl, .inl ⟨_, hv⟩⟩
  | group hl _ _ => exact ⟨_, _, rfl, .inr (.inl hl)⟩
  | var ht => exact ⟨_, _, rfl, .inr (.inr ht.1)⟩
  | call ht _ _ _ => exact ⟨_, _, rfl, .inr (.inr ht.1)⟩
  | ofPrimary _ ih => exact ih
  | member _ _ _ ih =>
    obtain ⟨t, us, rfl, ht⟩ := ih
    exact ⟨t, _, rfl, ht⟩
  | invoke _ _ _ _ _ _ ih =>
    obtain ⟨t, us, rfl, ht⟩ := ih
    exact ⟨t, _, rfl, ht⟩
  | @ofOperand level _ _ _ ih => exact ih
  | binary _ _ _ ih =>
    obtain ⟨t, us, rfl, ht⟩ := ih
    exact ⟨t, _, rfl, ht⟩
  | _ => trivial

lemma Derives.expression_ne_nil {ts : List Token} {rank : Rank} {e : Expr}
    (h : Derives ts (.expression rank e)) : ts ≠ [] := by
  obtain ⟨t, us, rfl, -⟩ := h.startsOpened
  simp

lemma Derives.field_starts {ts : List Token} {b : Binding} (h : Derives ts (.field b)) :
    ∃ t us, ts = t :: us ∧ t.literal = "LET" := by
  cases h with
  | field hword _ _ _ _ => exact ⟨_, _, rfl, hword⟩

lemma Derives.field_ne_nil {ts : List Token} {b : Binding} (h : Derives ts (.field b)) :
    ts ≠ [] := by
  obtain ⟨t, us, rfl, -⟩ := h.field_starts
  exact List.cons_ne_nil t us

lemma Derives.method_starts {ts : List Token} {m : Method} (h : Derives ts (.method m)) :
    ∃ t us, ts = t :: us ∧ t.literal = "DEF" := by
  cases h with
  | method hword _ _ _ _ _ => exact ⟨_, _, rfl, hword⟩

lemma Derives.method_ne_nil {ts : List Token} {m : Method} (h : Derives ts (.method m)) :
    ts ≠ [] := by
  obtain ⟨t, us, rfl, -⟩ := h.method_starts
  exact List.cons_ne_nil t us

lemma Derives.statement_ne_nil {ts : List Token} {s : Stmt} (h : Derives ts (.statement s)) :
    ts ≠ [] := by
  cases h with
  | declaration h => exact h.field_ne_nil
  | _ => simp

end LetDef
