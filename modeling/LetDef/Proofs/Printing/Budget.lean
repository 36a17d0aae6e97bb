import LetDef.Datum.Format
import LetDef.Proofs.Printing.Image

/-!
# The budget of the object notation

The object notation is written with a budget: each record, list, tag and present part on the way
down takes units of it, and a tree that needs more than there are is refused.  `Program.units` says
how many a program needs, from its constructs alone.

The limit under which a program is read has no part in this.  It counts groups, arguments and
blocks, whereas a chain of members or operators takes units without being counted at all: at every
limit there are programs that need more than any given number of units
(`exists_units_lt`).  What bounds the units is the number of tokens, since a token adds two at most
(`Derives.within`).  `write_ron_iff_units_le` puts together which programs are written.
-/

namespace LetDef

/-! ## Units -/

/-- The units of a literal. -/
def Literal.units : Literal → Nat
  | .nil => 0
  | .bool _ => 1
  | .integer value => if value = 0 then 4 else 5
  | .decimal _ => 1
  | .character _ => 1
  | .string _ => 1

mutual

/-- The units of an expression. -/
def Expr.units : Expr → Nat
  | .literal value => 1 + value.units
  | .group inner => 1 + inner.units
  | .binary _ left right => 3 + max left.units right.units
  | .var _ => 3
  | .member receiver _ => 4 + receiver.units
  | .call _ arguments => 4 + Expr.itemUnits arguments
  | .invoke receiver _ arguments => 4 + max receiver.units (Expr.itemUnits arguments)

/-- The units of expressions as the items of a list. -/
def Expr.itemUnits : List Expr → Nat
  | [] => 0
  | e :: es => max (1 + e.units) (Expr.itemUnits es)

end

/-- The units of an expression that may be missing. -/
def Expr.optionUnits : Option Expr → Nat
  | none => 0
  | some e => 1 + e.units

/-- The units of a binding. -/
def Binding.units (b : Binding) : Nat :=
  2 + max (if b.typeName.isSome then 1 else 0) (Expr.optionUnits b.value)

mutual

/-- The units of a statement. -/
def Stmt.units : Stmt → Nat
  | .expression value => 1 + value.units
  | .declaration binding => 1 + binding.units
  | .assignment receiver value => 3 + max receiver.units value.units
  | .conditional condition thenBlock elseBlock =>
    3 + max condition.units (1 + max (Stmt.itemUnits thenBlock) (Stmt.itemUnits elseBlock))
  | .forEach _ value body => 3 + max value.units (1 + Stmt.itemUnits body)
  | .whileLoop condition body => 3 + max condition.units (1 + Stmt.itemUnits body)
  | .result value => 1 + Expr.optionUnits value

/-- The units of statements as the items of a list. -/
def Stmt.itemUnits : List Stmt → Nat
  | [] => 0
  | s :: ss => max (1 + s.units) (Stmt.itemUnits ss)

end

/-- The units of a method. -/
def Method.units (m : Method) : Nat :=
  3 + max (if m.parameters.isEmpty then 0 else 1) (Stmt.itemUnits m.statements)

/-- The units of a program. -/
def Program.units (p : Program) : Nat :=
  3 + max ((p.fields.map fun b => 1 + b.units).foldr max 0)
    ((p.methods.map fun m => 1 + m.units).foldr max 0)

/-! ## Units are what the notation takes -/

lemma Literal.nesting_datum (v : Literal) : v.datum.nesting = v.units := by
  cases v with
  | integer value =>
    simp only [Literal.datum, Literal.units, Datum.nesting]
    split <;> rfl
  | _ => rfl

mutual

/-- The units of an expression are what its tree takes. -/
theorem Expr.nesting_datum (e : Expr) : e.datum.nesting = e.units := by
  cases e with
  | literal v => simp only [Expr.datum, Datum.nesting, Literal.nesting_datum, Expr.units]
  | group e => simp only [Expr.datum, Datum.nesting, Expr.nesting_datum e, Expr.units]
  | binary op e f =>
    simp only [Expr.datum, Datum.nesting, Datum.nestingParts, Expr.nesting_datum e,
      Expr.nesting_datum f, Expr.units]
    omega
  | var name => rfl
  | member e name =>
    simp only [Expr.datum, Datum.access, Datum.ofOption, Datum.nesting, Datum.nestingParts,
      Expr.nesting_datum e, Expr.units]
    omega
  | call name es =>
    simp only [Expr.datum, Datum.call, Datum.ofOption, Datum.nesting, Datum.nestingParts,
      Expr.nestingItems_data es, Expr.units]
    omega
  | invoke e name es =>
    simp only [Expr.datum, Datum.call, Datum.ofOption, Datum.nesting, Datum.nestingParts,
      Expr.nesting_datum e, Expr.nestingItems_data es, Expr.units]
    omega

theorem Expr.nestingItems_data (es : List Expr) :
    Datum.nestingItems (Expr.data es) = Expr.itemUnits es := by
  cases es with
  | nil => rfl
  | cons e es =>
    simp only [Expr.data, Datum.nestingItems, Expr.nesting_datum e, Expr.nestingItems_data es,
      Expr.itemUnits]

end

lemma Expr.nesting_ofOption (o : Option Expr) :
    (Datum.ofOption (o.map Expr.datum)).nesting = Expr.optionUnits o := by
  cases o with
  | none => rfl
  | some e => simp only [Option.map_some, Datum.ofOption, Datum.nesting, Expr.nesting_datum,
      Expr.optionUnits]

lemma nesting_ofOption_name (o : Option String) :
    (Datum.ofOption (o.map .text)).nesting = if o.isSome then 1 else 0 := by
  cases o <;> rfl

/-- The units of a binding do not depend on the name that its record is given. -/
lemma Binding.nesting_datum (b : Binding) (recordName : String) :
    (b.datum recordName).nesting = b.units := by
  simp only [Binding.datum, Datum.nesting, Datum.nestingParts, nesting_ofOption_name,
    Expr.nesting_ofOption, Binding.units]
  omega

mutual

theorem Stmt.nesting_datum (s : Stmt) : s.datum.nesting = s.units := by
  cases s with
  | expression e => simp only [Stmt.datum, Datum.nesting, Expr.nesting_datum, Stmt.units]
  | declaration b => simp only [Stmt.datum, Datum.nesting, Binding.nesting_datum, Stmt.units]
  | assignment e f =>
    simp only [Stmt.datum, Datum.nesting, Datum.nestingParts, Expr.nesting_datum, Stmt.units]
    omega
  | conditional e thenBlock elseBlock =>
    simp only [Stmt.datum, Datum.nesting, Datum.nestingParts, Expr.nesting_datum,
      Stmt.nestingItems_data thenBlock, Stmt.nestingItems_data elseBlock, Stmt.units]
    omega
  | forEach name e body =>
    simp only [Stmt.datum, Datum.nesting, Datum.nestingParts, Expr.nesting_datum,
      Stmt.nestingItems_data body, Stmt.units]
    omega
  | whileLoop e body =>
    simp only [Stmt.datum, Datum.nesting, Datum.nestingParts, Expr.nesting_datum,
      Stmt.nestingItems_data body, Stmt.units]
    omega
  | result o => simp only [Stmt.datum, Datum.nesting, Expr.nesting_ofOption, Stmt.units]

theorem Stmt.nestingItems_data (ss : List Stmt) :
    Datum.nestingItems (Stmt.data ss) = Stmt.itemUnits ss := by
  cases ss with
  | nil => rfl
  | cons s ss =>
    simp only [Stmt.data, Datum.nestingItems, Stmt.nesting_datum s, Stmt.nestingItems_data ss,
      Stmt.itemUnits]

end

/-- Items take one unit more than the deepest of them. -/
lemma nestingItems_eq (ds : List Datum) :
    Datum.nestingItems ds = (ds.map fun d => 1 + d.nesting).foldr max 0 := by
  induction ds with
  | nil => rfl
  | cons d ds ih => rw [Datum.nestingItems, ih]; rfl

lemma nestingItems_names (names : List String) :
    Datum.nestingItems (names.map .text) = if names.isEmpty then 0 else 1 := by
  induction names with
  | nil => rfl
  | cons name names ih =>
    rw [List.map_cons, Datum.nestingItems, ih]
    cases names <;> rfl

lemma Method.nesting_datum (m : Method) : m.datum.nesting = m.units := by
  simp only [Method.datum, Datum.nesting, Datum.nestingParts, nestingItems_names,
    Stmt.nestingItems_data, Method.units]
  split <;> omega

/-- The units of a program are what its tree takes. -/
theorem Program.nesting_datum (p : Program) : p.datum.nesting = p.units := by
  have hfields : Datum.nestingItems (p.fields.map (Binding.datum "Field")) =
      (p.fields.map fun b => 1 + b.units).foldr max 0 := by
    simp only [nestingItems_eq, List.map_map, Function.comp_def, Binding.nesting_datum]
  have hmethods : Datum.nestingItems (p.methods.map Method.datum) =
      (p.methods.map fun m => 1 + m.units).foldr max 0 := by
    simp only [nestingItems_eq, List.map_map, Function.comp_def, Method.nesting_datum]
  simp only [Program.datum, Datum.nesting, Datum.nestingParts, hfields, hmethods, Program.units]
  omega

/-! ## Tokens bound the units -/

/-- The phrase takes at most two units for each of `n` tokens, and a few besides. -/
def Phrase.Within (n : Nat) : Phrase → Prop
  | .expression _ e => e.units ≤ 2 * n + 4
  | .expressions es => Expr.itemUnits es ≤ 2 * n + 5
  | .arguments es => Expr.itemUnits es ≤ 2 * n + 5
  | .value v => Expr.optionUnits v ≤ 2 * n + 3
  | .field b => b.units + 1 ≤ 2 * n
  | .statement s => s.units ≤ 2 * n + 3
  | .block _ ss => Stmt.itemUnits ss ≤ 2 * n + 4
  | .body ss => Stmt.itemUnits ss ≤ 2 * n
  | .otherwise ss => Stmt.itemUnits ss ≤ 2 * n + 2
  | .method m => m.units + 1 ≤ 2 * n
  | .program p => p.units ≤ 2 * n + 3

lemma Literal.units_le (v : Literal) : v.units ≤ 5 := by
  cases v with
  | integer value =>
    rw [Literal.units]
    split <;> omega
  | _ => simp [Literal.units]

/-- A binding takes two units and what its deepest part takes. -/
lemma Binding.units_le (b : Binding) : b.units ≤ 2 + max 1 (Expr.optionUnits b.value) := by
  rw [Binding.units]
  split <;> omega

lemma Method.units_le (m : Method) : m.units ≤ 3 + max 1 (Stmt.itemUnits m.statements) := by
  rw [Method.units]
  split <;> omega

lemma Derives.body_ne_nil {ts : List Token} {ss : List Stmt} (h : Derives ts (.body ss)) :
    ts ≠ [] := by
  cases h
  exact List.cons_ne_nil _ _

/-- Each token brings in two units at most, case by case along the derivation. -/
theorem Derives.within {ts : List Token} {phrase : Phrase} (h : Derives ts phrase) :
    phrase.Within ts.length := by
  induction h with
  | @literal _ v _ =>
    have := v.units_le
    simp only [Phrase.Within, Expr.units, List.length_cons, List.length_nil]
    omega
  | binary he _ hf ihe ihf =>
    have hleft := List.length_pos_iff.2 he.expression_ne_nil
    have hright := List.length_pos_iff.2 hf.expression_ne_nil
    simp only [Phrase.Within, Expr.units, List.length_append, List.length_cons] at *
    omega
  | @field _ t _ _ _ typeName v _ _ _ _ _ ih =>
    have := (Binding.mk t.literal typeName v).units_le
    simp only [Phrase.Within, List.length_append, List.length_cons, List.length_nil] at *
    omega
  | whileLoop _ he hbody ihe ihbody =>
    have := List.length_pos_iff.2 hbody.body_ne_nil
    simp only [Phrase.Within, Stmt.units, List.length_append, List.length_cons] at *
    omega
  | @method _ t _ _ _ _ names ss _ _ _ _ _ _ ih =>
    have := (Method.mk t.literal names ss).units_le
    simp only [Phrase.Within, List.length_append, List.length_cons] at *
    omega
  | methods _ _ ihMethod ih =>
    simp only [Phrase.Within, Program.units, List.length_append, List.map_cons, List.map_nil,
      List.foldr_cons, List.foldr_nil] at *
    omega
  | fields _ _ ihField ih =>
    simp only [Phrase.Within, Program.units, List.length_append, List.map_cons,
      List.foldr_cons] at *
    omega
  | _ =>
    simp only [Phrase.Within, Expr.units, Expr.itemUnits, Expr.optionUnits, Stmt.units,
      Stmt.itemUnits, Program.units, List.length_append, List.length_cons, List.length_nil,
      List.map_nil, List.foldr_nil] at *
    try omega

/-! ## What is written -/

namespace Program

/-- The tokens of a text bound the units of the program that it reads as. -/
lemma units_le_of_ofText {limit : Nat} {text : String} {ts : List Token} {p : Program}
    (hts : tokenize text = .ok ts) (h : ofText limit text = .ok p) :
    p.units ≤ 2 * ts.length + 3 := by
  have hread : ofTokens limit ts = .ok p := by
    rw [ofText, hts] at h
    exact h
  exact ((ofTokens_eq_ok_iff (wellSpelled_of_tokenize hts)).1 hread).1.within

/-- A chain of so many members of a variable. -/
def chain : Nat → Expr
  | 0 => .var "a"
  | n + 1 => .member (chain n) "b"

lemma wellFormed_chain (n : Nat) : (chain n).WellFormed ∧ ¬ (chain n).IsBinary := by
  have ha : IsIdentifier "a" := spelling_of_all 'a' [] rfl rfl
  have hb : IsIdentifier "b" := spelling_of_all 'b' [] rfl rfl
  induction n with
  | zero => exact ⟨.var ha (by decide), id⟩
  | succ n ih => exact ⟨.member ih.1 ih.2 hb, id⟩

lemma nesting_chain (n : Nat) : (chain n).nesting = 0 := by
  induction n with
  | zero => rfl
  | succ n ih => exact ih

/-- Each member of the chain takes four units. -/
lemma units_chain (n : Nat) : (chain n).units = 4 * n + 3 := by
  induction n with
  | zero => rfl
  | succ n ih =>
    rw [chain, Expr.units, ih]
    omega

/-- No limit under which expressions are read at all bounds the units of what is read. -/
theorem exists_units_lt {limit : Nat} (hlimit : 1 ≤ limit) (n : Nat) :
    ∃ text p, ofText limit text = .ok p ∧ n < p.units := by
  have hx : IsIdentifier "x" := spelling_of_all 'x' [] rfl rfl
  have hwellFormed : (Program.mk [⟨"x", none, some (chain n)⟩] []).WellFormed :=
    ⟨List.forall_mem_singleton.2 ⟨hx, by simp, by simpa using (wellFormed_chain n).1⟩,
      List.forall_mem_nil _⟩
  have hneed : (Program.mk [⟨"x", none, some (chain n)⟩] []).need ≤ limit := by
    simp only [Program.need, Binding.need, Expr.needOfOption, Expr.need, nesting_chain,
      List.map_cons, List.map_nil, List.foldr_cons, List.foldr_nil]
    omega
  refine ⟨_, _, hwellFormed.ofText_render hneed, ?_⟩
  simp only [Program.units, Binding.units, Expr.optionUnits, units_chain, List.map_cons,
    List.map_nil, List.foldr_cons, List.foldr_nil]
  omega

/-- A program is written down in the object notation if and only if it needs at most 128 units; else
it is refused as too deep.  A text of `n` tokens is read as a program of at most `2 * n + 3` units,
but no limit on the nesting bounds them. -/
theorem write_ron_iff_units_le :
    (∀ p : Program, Format.ron.write p.datum =
      if p.units ≤ 128 then .ok (String.ofList (p.datum.ronAt 0) ++ "\n") else .error .tooDeep) ∧
    (∀ limit text ts p, tokenize text = .ok ts → ofText limit text = .ok p →
      p.units ≤ 2 * ts.length + 3) ∧
    ∀ limit, 1 ≤ limit → ∀ n, ∃ text p, ofText limit text = .ok p ∧ n < p.units := by
  refine ⟨fun p => ?_, fun limit text ts p => units_le_of_ofText, fun limit => exists_units_lt⟩
  rw [Format.write, Datum.ron?, nesting_datum, Datum.maxNesting]
  split_ifs <;> rfl

theorem write_ron_iff_units_le_short :
    tokenize "LET x;" = .ok [⟨.identifier, "LET", 0⟩, ⟨.identifier, "x", 4⟩, ⟨.operator, ";", 5⟩] ∧
    ofText 64 "LET x;" = .ok ⟨[⟨"x", none, none⟩], []⟩ ∧
    (Program.mk [⟨"x", none, none⟩] []).units ≤ 2 * 3 + 3 ∧
    1 ≤ 64 ∧ ∃ text p, ofText 64 text = .ok p ∧ 128 < p.units := by
  have htokens : tokenize "LET x;" =
      .ok [⟨.identifier, "LET", 0⟩, ⟨.identifier, "x", 4⟩, ⟨.operator, ";", 5⟩] := by cbv
  have hread : ofText 64 "LET x;" = .ok ⟨[⟨"x", none, none⟩], []⟩ := by cbv
  exact ⟨htokens, hread, write_ron_iff_units_le.2.1 _ _ _ _ htokens hread, by decide,
    write_ron_iff_units_le.2.2 64 (by decide) 128⟩

/-- Thirty members of a variable are read, but they take 130 units. -/
theorem write_ron_members_tooDeep :
    ofText defaultLimit
        "LET x = a.b.b.b.b.b.b.b.b.b.b.b.b.b.b.b.b.b.b.b.b.b.b.b.b.b.b.b.b.b.b;" =
      .ok ⟨[⟨"x", none, some (chain 30)⟩], []⟩ ∧
    Format.ron.write (Program.mk [⟨"x", none, some (chain 30)⟩] []).datum =
      .error .tooDeep :=
  ⟨by cbv, by cbv⟩

end Program

end LetDef
