import LetDef.Proofs.Grammar.Restoring

/-!
# Operations leave nothing behind

A parse can be asked to read a construct, to compare the tokens ahead with patterns and to take
another limit, in any order and also after a failure.  The main result is that the only thing an
operation leaves to the ones after it is how far the parse has come: what is answered next, and how
many tokens it takes, is the same for a parse that starts afresh with the tokens ahead
(`operate_afresh`).

A fresh parse does not know how long the whole token list was.  It makes no difference as long as a
token is ahead, since then both parses have the same last token.  At the end of the list it does: a
fault is placed at the end of the whole list by the one parse and at zero by the other.  So the two
are compared by a coupling (`resumed`) in which faults must have the same place only if a token was
ahead at the start.
-/

namespace LetDef

/-! ## Operations -/

/-- What a parse can be asked to do. -/
inductive Operation where
  /-- To read a construct. -/
  | read (construct : Construct)
  /-- To compare the tokens ahead with patterns. -/
  | peek (patterns : List Pattern)
  /-- To take the tokens ahead if they fit the patterns. -/
  | tryMatch (patterns : List Pattern)
  /-- To take another limit from here on. -/
  | setLimit (limit : Nat)

/-- The limit that the operation sets, if it sets one. -/
def Operation.limit? : Operation → Option Nat
  | .setLimit limit => some limit
  | _ => none

/-- A limit that the operation sets fits into the counter. -/
def Operation.Fits (operation : Operation) : Prop :=
  ∀ limit ∈ operation.limit?, limit ≤ maxCount

/-- The limit that operations set last, or the one that holds if they set none. -/
def lastLimit (operations : List Operation) : Nat :=
  (operations.filterMap Operation.limit?).getLast?.getD defaultLimit

/-- What an operation is answered with. -/
inductive Reply where
  /-- What has been read. -/
  | node (node : Node)
  /-- Why nothing has been read. -/
  | halt (halt : Halt)
  /-- Whether the tokens ahead fit. -/
  | matched (fits : Bool)
  /-- The limit has been set. -/
  | done

/-- The reply to reading. -/
def Reply.ofRead : Except Fault Node → Reply
  | .ok value => .node value
  | .error fault => .halt (.fault fault)

/-- The reply without the place of a fault. -/
def Reply.unplaced : Reply → Reply
  | .halt (.fault fault) => .halt (.fault ⟨fault.cause, 0⟩)
  | reply => reply

namespace Parse

/-- Does what is asked for, with the limit kept in a counter. -/
def operate (p : Parse) : Operation → Reply × Parse
  | .read construct =>
    match Counted.rule construct p with
    | .ok node q => (.node node, q)
    | .error halt q => (.halt halt, q)
  | .peek patterns => (.matched (p.peek patterns), p)
  | .tryMatch patterns => (.matched (p.tryMatch patterns).1, (p.tryMatch patterns).2)
  | .setLimit limit => (.done, p.withLimit limit)

/-- What is left of the parse after operations, whether they succeed or not. -/
def operateAll (p : Parse) (operations : List Operation) : Parse :=
  operations.foldl (fun q operation => (q.operate operation).2) p

/-- A counter that is large enough makes no difference to what is read. -/
theorem operate_read {p : Parse} (hp : p.limit ≤ maxCount) (construct : Construct) :
    p.operate (.read construct) = (.ofRead (p.read construct).1, (p.read construct).2) := by
  have hfollows := Counted.follows_rule hp construct p.input
  rw [operate, show p = ⟨p.input, p.limit⟩ from rfl, hfollows, read]
  cases construct.rule p.limit p.input <;> rfl

end Parse

/-! ## A parse that starts afresh -/

/-- The end of a list is that of what is left of it, unless nothing is left. -/
lemma TokenInput.ofList_drop {tokens : List Token} {k : Nat} (h : tokens.drop k ≠ []) :
    TokenInput.ofList (tokens.drop k) = (TokenInput.ofList tokens).advanceBy k := by
  have hlast : (tokens.drop k).getLast? = tokens.getLast? := by
    rw [List.getLast?_drop, if_neg]
    exact fun hle => h (List.drop_eq_nil_of_le hle)
  rw [ofList, ofList, advanceBy, hlast]

lemma TokenInput.advanceBy_advanceBy (input : TokenInput) (m n : Nat) :
    (input.advanceBy m).advanceBy n = input.advanceBy (m + n) := by
  rw [advanceBy, advanceBy, advanceBy, List.drop_drop]

/-- Two runs over the tokens from the index `k` on: one comes from the start of the list, the other
one starts with them. -/
def Coupling.resumed (tokens : List Token) (k : Nat) : Coupling where
  token := Eq
  input i j := ∃ n, i = ((TokenInput.ofList tokens).advanceBy k).advanceBy n ∧
    j = (TokenInput.ofList (tokens.drop k)).advanceBy n
  fault f g := f.cause = g.cause ∧ (tokens.drop k ≠ [] → f = g)
  parted _ := False
  givesUp _ := False
  kind_eq h := congrArg Token.kind h
  literal_eq h := congrArg Token.literal h
  head := by
    rintro _ _ ⟨n, rfl, rfl⟩
    exact optionRel_self fun _ _ => rfl
  shorter_iff := by
    rintro _ _ _ _ ⟨m, rfl, rfl⟩ ⟨n, rfl, rfl⟩
    exact Iff.rfl
  advance := by
    rintro _ _ ⟨n, rfl, rfl⟩
    exact .inr ⟨n + 1, TokenInput.advanceBy_advanceBy _ n 1, TokenInput.advanceBy_advanceBy _ n 1⟩
  fault_ahead := by
    rintro _ _ cause ⟨n, rfl, rfl⟩ -
    exact ⟨rfl, fun h => by rw [TokenInput.ofList_drop h]⟩
  fault_malformed h _ := ⟨congrArg Fault.cause (malformed_eq h), fun _ => malformed_eq h⟩
  parted_advance h := h
  token_self _ _ _ := rfl

namespace Parse

/-- A parse of the tokens ahead that starts with them, under the same limit. -/
def afresh (p : Parse) : Parse := (ofList p.input.ahead).withLimit p.limit

/-- An operation does to the parse what it does to one that starts afresh. -/
structure AgreesAfresh (p : Parse) (operation : Operation) : Prop where
  /-- The same value is answered, or the same cause. -/
  reply_eq : (p.operate operation).1.unplaced = (p.afresh.operate operation).1.unplaced
  /-- With a token ahead, a fault has the same place. -/
  place_eq : p.input.ahead ≠ [] → (p.operate operation).1 = (p.afresh.operate operation).1
  /-- The same tokens are left. -/
  ahead_eq : (p.operate operation).2.input.ahead = (p.afresh.operate operation).2.input.ahead
  /-- They are the last ones of those that were ahead. -/
  ahead_suffix : (p.operate operation).2.input.ahead <:+ p.input.ahead

/-- A parse that has come to some place in a token list, with a limit that the counter can hold. -/
structure Reaches (tokens : List Token) (p : Parse) : Prop where
  place : ∃ k, p.input = (TokenInput.ofList tokens).advanceBy k
  limit_le : p.limit ≤ maxCount

variable {tokens : List Token} {p : Parse}

/-! ### Reading -/

/-- Reading comes to the same end from the place as from a fresh start. -/
lemma Reaches.read_afresh (hp : Reaches tokens p) (construct : Construct) :
    (∃ n, (p.read construct).2 = ⟨p.input.advanceBy n, p.limit⟩ ∧
      (p.afresh.read construct).2 = ⟨p.afresh.input.advanceBy n, p.limit⟩) ∧
    (Reply.ofRead (p.read construct).1).unplaced =
      (Reply.ofRead (p.afresh.read construct).1).unplaced ∧
    (p.input.ahead ≠ [] → (p.read construct).1 = (p.afresh.read construct).1) := by
  obtain ⟨k, hk⟩ := hp.place
  have hahead : p.input.ahead = tokens.drop k := by
    rw [hk]
    rfl
  have hstart : (Coupling.resumed tokens k).input p.input p.afresh.input :=
    ⟨0, by rw [hk]; rfl, by rw [← hahead]; rfl⟩
  have hmeets := (Coupling.couples_rule ((Coupling.resumed tokens k).admits_self p.limit)
    construct).meets _ _ hstart
  have hlimit : p.afresh.limit = p.limit := rfl
  rw [read, read, hlimit]
  generalize construct.rule p.limit p.input = x at hmeets
  generalize construct.rule p.limit p.afresh.input = y at hmeets
  cases hmeets with
  | ok hinput =>
    obtain ⟨n, rfl, rfl⟩ := hinput
    exact ⟨⟨n, by rw [hk], by rw [← hahead]; rfl⟩, rfl, fun _ => rfl⟩
  | @error f g _ _ hfault hinput =>
    obtain ⟨n, rfl, rfl⟩ := hinput
    refine ⟨⟨n, by rw [hk], by rw [← hahead]; rfl⟩, ?_, fun h => ?_⟩
    · simp only [Reply.ofRead, Reply.unplaced, hfault.1]
    · simp only [hfault.2 (hahead ▸ h)]
  | parted h => exact h.elim
  | gaveUp h => exact h.elim

lemma Reaches.agrees_read (hp : Reaches tokens p) (construct : Construct) :
    p.AgreesAfresh (.read construct) := by
  obtain ⟨⟨n, hafter, hafresh⟩, hreply, hplace⟩ := hp.read_afresh construct
  have hfresh : p.afresh.limit ≤ maxCount := hp.limit_le
  have hoperate := operate_read hp.limit_le construct
  have hoperate' := operate_read hfresh construct
  refine ⟨?_, fun h => ?_, ?_, ?_⟩
  · rw [hoperate, hoperate', hreply]
  · rw [hoperate, hoperate', hplace h]
  · rw [hoperate, hoperate', hafter, hafresh]
    rfl
  · rw [hoperate, hafter]
    exact List.drop_suffix n p.input.ahead

/-! ### Any operation -/

lemma tryMatch_eq (p : Parse) (patterns : List Pattern) :
    p.tryMatch patterns = (p.peek patterns,
      ⟨p.input.advanceBy (if p.peek patterns then patterns.length else 0), p.limit⟩) := by
  unfold tryMatch TokenInput.tryMatch peek
  by_cases hpeek : p.input.peek patterns = true
  · simp only [hpeek, if_true]
  · simp only [hpeek, Bool.false_eq_true, if_false]
    rfl

/-- Patterns are compared with the tokens ahead alone. -/
lemma agrees_tryMatch (p : Parse) (patterns : List Pattern) :
    p.AgreesAfresh (.tryMatch patterns) := by
  have hpeek : p.afresh.peek patterns = p.peek patterns := rfl
  have hsame : (p.operate (.tryMatch patterns)).1 = (p.afresh.operate (.tryMatch patterns)).1 := by
    rw [operate, operate, tryMatch_eq, tryMatch_eq, hpeek]
  refine ⟨congrArg _ hsame, fun _ => hsame, ?_, ?_⟩
  · rw [operate, operate, tryMatch_eq, tryMatch_eq, hpeek]
    rfl
  · rw [operate, tryMatch_eq]
    exact List.drop_suffix _ p.input.ahead

theorem Reaches.agrees (hp : Reaches tokens p) (operation : Operation) :
    p.AgreesAfresh operation := by
  cases operation with
  | read construct => exact hp.agrees_read construct
  | peek patterns => exact ⟨rfl, fun _ => rfl, rfl, List.suffix_rfl⟩
  | tryMatch patterns => exact agrees_tryMatch p patterns
  | setLimit limit => exact ⟨rfl, fun _ => rfl, rfl, List.suffix_rfl⟩

/-- An operation leaves the limit as it is, unless it sets one. -/
theorem limit_operate (hp : p.limit ≤ maxCount) (operation : Operation) :
    (p.operate operation).2.limit = operation.limit?.getD p.limit := by
  cases operation with
  | read construct =>
    rw [operate_read hp, read]
    cases construct.rule p.limit p.input <;> rfl
  | peek patterns => rfl
  | tryMatch patterns => rfl
  | setLimit limit => rfl

/-- What one operation preserves. -/
theorem Reaches.operate (hp : Reaches tokens p) {operation : Operation} (hfits : operation.Fits) :
    Reaches tokens (p.operate operation).2 where
  place := by
    obtain ⟨k, hk⟩ := hp.place
    cases operation with
    | read construct =>
      obtain ⟨⟨n, hafter, -⟩, -⟩ := hp.read_afresh construct
      rw [operate_read hp.limit_le, hafter, hk]
      exact ⟨k + n, TokenInput.advanceBy_advanceBy _ k n⟩
    | peek patterns => exact ⟨k, hk⟩
    | tryMatch patterns =>
      rw [Parse.operate, tryMatch_eq, hk]
      exact ⟨k + _, TokenInput.advanceBy_advanceBy _ k _⟩
    | setLimit limit => exact ⟨k, hk⟩
  limit_le := by
    rw [limit_operate hp.limit_le]
    cases hlimit : operation.limit? with
    | none => exact hp.limit_le
    | some limit => exact hfits limit hlimit

lemma reaches_ofList (tokens : List Token) : Reaches tokens (ofList tokens) where
  place := ⟨0, rfl⟩
  limit_le := by
    show defaultLimit ≤ maxCount
    decide

/-- What any operations preserve, and the limit that they leave. -/
theorem reaches_operateAll (tokens : List Token) {operations : List Operation}
    (hfits : ∀ operation ∈ operations, operation.Fits) :
    Reaches tokens ((ofList tokens).operateAll operations) ∧
      ((ofList tokens).operateAll operations).limit = lastLimit operations := by
  induction operations using List.reverseRecOn with
  | nil => exact ⟨reaches_ofList tokens, rfl⟩
  | append_singleton operations operation ih =>
    obtain ⟨hreaches, hlimit⟩ := ih fun o ho => hfits o (List.mem_append_left _ ho)
    have hoperation := hfits operation (List.mem_append_right _ (List.mem_singleton_self _))
    have hlast : (ofList tokens).operateAll (operations ++ [operation]) =
        (((ofList tokens).operateAll operations).operate operation).2 := by
      rw [operateAll, List.foldl_append]
      rfl
    rw [hlast]
    refine ⟨hreaches.operate hoperation, ?_⟩
    rw [limit_operate hreaches.limit_le, hlimit, lastLimit, lastLimit, List.filterMap_append,
      List.getLast?_append]
    cases hset : operation.limit? with
    | none => simp [hset]
    | some limit => simp [hset]

/-- A guard neither runs out of room nor is it entered without end. -/
lemma reply_ne (hp : p.limit ≤ maxCount) (operation : Operation) :
    (p.operate operation).1 ≠ .halt .overflow ∧ (p.operate operation).1 ≠ .halt .endless := by
  cases operation with
  | read construct =>
    rw [operate_read hp]
    cases (p.read construct).1 <;> simp [Reply.ofRead]
  | peek patterns => simp [operate]
  | tryMatch patterns => simp [operate]
  | setLimit limit => simp [operate]

/-- After any operations on a token list, whether they have succeeded or not, the limit is the one
that was set last, the counter in which it is kept has not left its range, and a further operation
does what it does to a parse that starts afresh with the tokens ahead and that limit.  Reading with
the counter is reading with the limit as an argument. -/
theorem operate_afresh (tokens : List Token) (earlier : List Operation) (operation : Operation)
    (hfits : ∀ o ∈ earlier ++ [operation], o.Fits) :
    let p := (ofList tokens).operateAll earlier
    p.limit = lastLimit earlier ∧
    (p.operate operation).2.limit = lastLimit (earlier ++ [operation]) ∧
    (p.operate operation).1 ≠ .halt .overflow ∧ (p.operate operation).1 ≠ .halt .endless ∧
    p.AgreesAfresh operation ∧
    ∀ construct, p.operate (.read construct) =
      (.ofRead (p.read construct).1, (p.read construct).2) := by
  intro p
  obtain ⟨hreaches, hlimit⟩ := reaches_operateAll tokens
    fun o ho => hfits o (List.mem_append_left [operation] ho)
  obtain ⟨-, hlimit'⟩ := reaches_operateAll tokens hfits
  obtain ⟨hoverflow, hendless⟩ := reply_ne hreaches.limit_le operation
  rw [operateAll, List.foldl_append] at hlimit'
  exact ⟨hlimit, hlimit', hoverflow, hendless, hreaches.agrees operation,
    operate_read hreaches.limit_le⟩

/-- A group is too deep for a limit of one.  Reading it fails inside of the group, and what is left
is read there with the whole limit. -/
theorem operate_afresh_group :
    let p := (ofList [⟨.operator, "(", 0⟩, ⟨.identifier, "x", 1⟩, ⟨.operator, ")", 2⟩]).operateAll
      [.setLimit 1, .read .expression]
    p.limit = 1 ∧ (p.operate (.read .expression)).1 = .node (.expression (.var "x")) ∧
      (p.afresh.operate (.read .expression)).1 = .node (.expression (.var "x")) := by
  have hfits : ∀ o ∈ [.setLimit 1, .read .expression] ++ [.read .expression], Operation.Fits o := by
    simp [Operation.Fits, Operation.limit?, maxCount]
  intro p
  have hahead : p.input.ahead = [⟨.identifier, "x", 1⟩, ⟨.operator, ")", 2⟩] := by cbv
  have hread : (p.operate (.read .expression)).1 = .node (.expression (.var "x")) := by cbv
  obtain ⟨hlimit, -, -, -, hafresh, -⟩ := operate_afresh
    [⟨.operator, "(", 0⟩, ⟨.identifier, "x", 1⟩, ⟨.operator, ")", 2⟩] _ _ hfits
  have hplace := hafresh.place_eq (hahead ▸ List.cons_ne_nil _ _)
  exact ⟨hlimit, hread, hplace.symm.trans hread⟩

end Parse

end LetDef
