import LetDef.Program.Reading
import LetDef.Proofs.Grammar.Completeness
import LetDef.Proofs.Lexical.Partition

/-!
# The grammar and the rules agree

Soundness and completeness together say that at a given limit the rule for programs answers exactly
the programs that the tokens spell and whose need the limit covers (`ofTokens_eq_ok_iff`).

Two consequences take the limit out of this.  A phrase needs no more units than it has tokens,
because each unit is spent on at least one token of its own (`need_le_length`), so a limit of that
size never stands in the way.  And a rule has one answer only, so tokens spell one program at most,
although the grammar lets every word be a name.
-/

namespace LetDef

/-! ## The need of a phrase -/

/-- The smallest limit for the expressions and blocks of a phrase. -/
def Phrase.need : Phrase → Nat
  | .expression _ e => e.need
  | .expressions es => Expr.largestNeed es
  | .arguments es => Expr.largestNeed es
  | .value v => Expr.needOfOption v
  | .field b => b.need
  | .statement s => s.need
  | .block _ ss => Stmt.largestNeed ss
  | .body ss => Stmt.needOfBlock ss
  | .otherwise ss => Stmt.largestNeed ss
  | .method m => m.need
  | .program p => p.need

/-- A phrase needs no more units than it has tokens: a group or a call has parentheses besides what
is nested in it, and a block has words around it. -/
theorem Derives.need_le_length {ts : List Token} {phrase : Phrase} (h : Derives ts phrase) :
    phrase.need ≤ ts.length := by
  induction h with
  | noMethods => exact Nat.le_refl 0
  | methods _ _ ihMethod ih =>
    simp only [Phrase.need, Program.need, List.map_cons, List.foldr_cons, List.map_nil,
      List.foldr_nil, List.length_append] at *
    omega
  | fields _ _ ihField ih =>
    simp only [Phrase.need, Program.need, List.map_cons, List.foldr_cons,
      List.length_append] at *
    omega
  | _ =>
    simp only [Phrase.need, Expr.need, Expr.nesting, Expr.largestNeed, Expr.needOfOption,
      Binding.need, Stmt.need, Stmt.largestNeed, Stmt.needOfBlock, Method.need,
      List.length_append, List.length_cons, List.length_nil] at *
    try omega

/-! ## Programs -/

namespace Program

variable {limit : Nat} {ts : List Token} {p q : Program}

lemma ofTokens_eq_ok_iff_reads :
    ofTokens limit ts = .ok p ↔
      ∃ output, Grammar.program (Grammar.innerAt limit) (TokenInput.ofList ts) = .ok p output := by
  unfold ofTokens
  cases Grammar.program (Grammar.innerAt limit) (TokenInput.ofList ts) <;> simp

/-- The programs that are read at a limit are those that the tokens spell and that fit into it. -/
theorem ofTokens_eq_ok_iff (hts : ∀ t ∈ ts, t.WellSpelled) :
    ofTokens limit ts = .ok p ↔ Derives ts (.program p) ∧ p.need ≤ limit := by
  rw [ofTokens_eq_ok_iff_reads]
  constructor
  · rintro ⟨output, hr⟩
    exact Grammar.program_sound hr
  · rintro ⟨hd, hneed⟩
    exact ⟨_, Grammar.program_reads hd hts hneed _⟩

theorem eq_of_derives (hts : ∀ t ∈ ts, t.WellSpelled) (hp : Derives ts (.program p))
    (hq : Derives ts (.program q)) : p = q := by
  have hreadp := (ofTokens_eq_ok_iff hts).2 ⟨hp, hp.need_le_length⟩
  have hreadq := (ofTokens_eq_ok_iff hts).2 ⟨hq, hq.need_le_length⟩
  exact Except.ok.inj (hreadp.symm.trans hreadq)

/-- Let a text be cut into tokens.  At any limit that is not below their number, the tokens are read
as a program if and only if the grammar derives that program from all of them; and it derives no
other one. -/
theorem ofTokens_iff_derives (text : String) (ts : List Token) (htext : tokenize text = .ok ts) :
    (∀ limit, ts.length ≤ limit → ∀ p, ofTokens limit ts = .ok p ↔ Derives ts (.program p)) ∧
      ∀ p q, Derives ts (.program p) → Derives ts (.program q) → p = q := by
  have hts := wellSpelled_of_tokenize htext
  refine ⟨fun limit hlimit p => ?_, fun p q => eq_of_derives hts⟩
  rw [ofTokens_eq_ok_iff hts]
  constructor
  · exact And.left
  · intro hd
    have hneed : p.need ≤ ts.length := hd.need_le_length
    exact ⟨hd, Nat.le_trans hneed hlimit⟩

/-- A word of the grammar is a name here, and a sign belongs to a number after an operator. -/
theorem ofTokens_iff_derives_field :
    ∃ ts, tokenize "LET END = x - -5;" = .ok ts ∧ ts.length ≤ 7 ∧
      Derives ts (.program
        ⟨[⟨"END", none, some (.binary "-" (.var "x") (.literal (.integer (-5))))⟩], []⟩) := by
  have htext : tokenize "LET END = x - -5;" =
      .ok [⟨.identifier, "LET", 0⟩, ⟨.identifier, "END", 4⟩, ⟨.operator, "=", 8⟩,
        ⟨.identifier, "x", 10⟩, ⟨.operator, "-", 12⟩, ⟨.integer, "-5", 14⟩,
        ⟨.operator, ";", 16⟩] := by cbv
  refine ⟨_, htext, by decide, ?_⟩
  refine ((ofTokens_iff_derives _ _ htext).1 7 (by decide) _).1 ?_
  cbv

end Program

end LetDef
