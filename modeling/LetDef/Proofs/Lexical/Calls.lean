import LetDef.Proofs.Lexical.Place
import LetDef.Proofs.Lexical.Spelling

/-!
# Requests to a tokenizer, in any order

A tokenizer can be asked for more than its next token: every recogniser may be tried where it
stands, and an escape may be read there.  A request that fails keeps the characters it read, and a
later request that succeeds makes them the beginning of its token, unless `next` finds blanks first
and drops them.  So the places of tokens cannot be argued from the loop that asks for the next token
until there is none; they have to hold for requests in any order, with failures between them.

What every request does is to read on and to set the mark where the reader stands, in turns
(`Reader.LeadsTo`).  Neither leaves the text, and neither moves the mark or the index back.  A token
starts at the mark and moves the mark to its end, which is why it lies behind every earlier one.
`Tokenizer.calls` records what is asked and answered, and `calls_faithful` is the main result.
-/

namespace LetDef

/-! ## Requests and their record -/

/-- The recognisers that can be tried where a tokenizer stands. -/
inductive Recogniser where
  | token
  | identifier
  | number
  | character
  | string
  | operator

/-- What the recogniser says about the characters ahead. -/
def Recogniser.read : Recogniser → List Char → Reading Token.Kind
  | token => Lexeme.token
  | identifier => Lexeme.identifier
  | number => Lexeme.number
  | character => Lexeme.character
  | string => Lexeme.string
  | operator => Lexeme.operator

/-- What a tokenizer can be asked for. -/
inductive Request where
  /-- The next token after the blanks ahead. -/
  | next
  /-- A token that starts where the mark is, recognised from here on. -/
  | scan (recogniser : Recogniser)
  /-- An escape, which makes no token. -/
  | escape

/-- What a request is answered with. -/
inductive Answer where
  | token (token : Token)
  | fault (fault : Fault)
  /-- An escape has been read. -/
  | escape
  /-- There is no next token. -/
  | nothing
deriving DecidableEq

/-- The answer that a scan amounts to. -/
def Answer.ofScan : Except Fault Token → Answer
  | .ok t => .token t
  | .error f => .fault f

/-- The answer that reading an escape amounts to. -/
def Answer.ofEscape : Except Fault Unit → Answer
  | .ok _ => .escape
  | .error f => .fault f

/-- A request and its answer, with the tokenizer before and after it. -/
structure Call where
  before : Tokenizer
  request : Request
  answer : Answer
  after : Tokenizer

namespace Tokenizer

/-- Does what is asked for. -/
def perform (t : Tokenizer) : Request → Answer × Tokenizer
  | .next => (t.next.1.elim .nothing .ofScan, t.next.2)
  | .scan recogniser => (.ofScan (t.scan recogniser.read).1, (t.scan recogniser.read).2)
  | .escape => (.ofEscape t.scanEscape.1, t.scanEscape.2)

/-- The record of one request. -/
def call (t : Tokenizer) (request : Request) : Call :=
  ⟨t, request, (t.perform request).1, (t.perform request).2⟩

/-- The record of the requests, each made where the one before it left the tokenizer. -/
def calls : Tokenizer → List Request → List Call
  | _, [] => []
  | t, request :: requests => t.call request :: (t.call request).after.calls requests

end Tokenizer

/-! ## Reading on and setting the mark -/

/-- One reader comes from the other by reading on and setting the mark, in turns. -/
inductive Reader.LeadsTo (r : Reader) : Reader → Prop where
  | here : LeadsTo r r
  | advanceBy {r' : Reader} (n : Nat) : LeadsTo r r' → LeadsTo r (r'.advanceBy n)
  | mark {r' : Reader} : LeadsTo r r' → LeadsTo r r'.mark

namespace Reader.LeadsTo

variable {r r' r'' : Reader} {cs : List Char}

lemma trans (h : r.LeadsTo r') (h' : r'.LeadsTo r'') : r.LeadsTo r'' := by
  induction h' with
  | here => exact h
  | advanceBy n _ ih => exact ih.advanceBy n
  | mark _ ih => exact ih.mark

lemma within (h : r.LeadsTo r') (hr : r.In cs) : r'.In cs := by
  induction h with
  | here => exact hr
  | advanceBy n _ ih => exact ih.advanceBy n
  | mark _ ih => exact ih.mark

lemma index_le (h : r.LeadsTo r') : r.index ≤ r'.index := by
  induction h with
  | here => exact le_rfl
  | advanceBy n _ ih => rw [index_advanceBy]; omega
  | mark _ ih => rwa [index_mark]

lemma start_le (h : r.LeadsTo r') : r.start ≤ r'.start := by
  induction h with
  | here => exact le_rfl
  | advanceBy n _ ih => rwa [start_advanceBy]
  | @mark r' _ ih => exact ih.trans (Nat.le_add_right r'.start r'.pending)

lemma ahead_eq_nil (h : r.LeadsTo r') (hr : r.ahead = []) : r'.ahead = [] := by
  induction h with
  | here => exact hr
  | advanceBy n _ ih => rw [ahead_advanceBy, ih, List.drop_nil]
  | mark _ ih => exact ih

lemma skipBlanks (r : Reader) : r.LeadsTo r.skipBlanks := by
  unfold Reader.skipBlanks
  split
  · exact .here
  · exact .mark (.advanceBy _ .here)

end Reader.LeadsTo

/-! ## Scans -/

namespace Reader

variable {r r' : Reader}

/-- The token is made of what the reader holds since the mark, and the mark is set behind it. -/
structure Emits (r : Reader) (token : Token) (r' : Reader) : Prop where
  offset_eq : token.offset = r.start
  literal_eq : token.literal.toList = r.held.reverse
  start_eq : r'.start = r.index
  index_eq : r'.index = r.index

lemma emits_cut (r : Reader) (kind : Token.Kind) : r.Emits (r.cut kind).1 (r.cut kind).2 :=
  ⟨rfl, by simp [cut], rfl, index_mark r⟩

lemma Emits.mark {token : Token} (h : r.Emits token r') (hpending : r'.pending = 0) :
    r.Emits token r'.mark where
  offset_eq := h.offset_eq
  literal_eq := h.literal_eq
  start_eq := by rw [← h.start_eq]; simp [Reader.mark, Reader.index, hpending]
  index_eq := by rw [index_mark, h.index_eq]

lemma Emits.endOffset_eq {token : Token} (h : r.Emits token r') : token.endOffset = r'.index := by
  rw [Token.endOffset, ← String.length_toList, h.literal_eq, h.offset_eq, h.index_eq,
    List.length_reverse]
  rfl

/-- A scan cuts a token off somewhere behind the reader, or it only reads on and reports the place
it has come to. -/
lemma scan_cases (recognise : List Char → Reading Token.Kind) (r : Reader) :
    (∃ token moved r', r.scan recognise = (.ok token, r') ∧ r.LeadsTo moved ∧
      moved.Emits token r' ∧ r' = moved.mark) ∨
    ∃ fault r', r.scan recognise = (.error fault, r') ∧ r.LeadsTo r' ∧
      fault.offset = r'.index ∧ (recognise r.ahead).verdict = .error fault.cause := by
  unfold scan
  rcases hread : recognise r.ahead with ⟨n, cause | kind⟩
  · exact .inr ⟨_, _, rfl, .advanceBy n .here, rfl, rfl⟩
  · exact .inl ⟨_, r.advanceBy n, _, rfl, .advanceBy n .here, emits_cut _ kind, rfl⟩

lemma scanEscape_cases (r : Reader) :
    (∃ r', r.scanEscape = (.ok (), r') ∧ r.LeadsTo r') ∨
    ∃ fault r', r.scanEscape = (.error fault, r') ∧ r.LeadsTo r' ∧
      fault.offset = r'.index ∧ (Lexeme.escape r.ahead).verdict = .error fault.cause := by
  unfold scanEscape
  rcases hread : Lexeme.escape r.ahead with ⟨n, cause | _⟩
  · exact .inr ⟨_, _, rfl, .advanceBy n .here, rfl, rfl⟩
  · exact .inl ⟨_, rfl, .advanceBy n .here⟩

end Reader

/-! ## The end of the text as a cause -/

namespace Lexeme

lemma escape_verdict_ne (cs : List Char) : (escape cs).verdict ≠ .error .endOfInput := by
  unfold escape
  split
  · split <;> simp
  · simp
  · simp

lemma closingQuote_verdict_ne (cs : List Char) :
    (closingQuote cs).verdict ≠ .error .endOfInput := by
  unfold closingQuote
  split
  · split
    · simp
    · split <;> simp
  · simp

lemma characterUnit_verdict_ne (cs : List Char) :
    (characterUnit cs).verdict ≠ .error .endOfInput := by
  unfold characterUnit
  split
  · simp
  · split
    · split
      · simp
      · split
        · exact closingQuote_verdict_ne _
        · simp
    · split
      · simp
      · exact closingQuote_verdict_ne _

lemma character_verdict_ne (cs : List Char) :
    (character cs).verdict ≠ .error .endOfInput := by
  rw [character, Reading.verdict_after]
  unfold characterBody
  split
  · split <;> simp
  · exact characterUnit_verdict_ne _

lemma stringUnits_verdict_ne (cs : List Char) :
    (stringUnits cs).verdict ≠ .error .endOfInput := by
  fun_induction stringUnits cs <;> simp_all

lemma string_verdict_ne (cs : List Char) : (string cs).verdict ≠ .error .endOfInput := by
  rw [string, Reading.verdict_after]
  unfold stringBody
  split
  · simp
  · exact stringUnits_verdict_ne _

lemma operator_verdict_ne (cs : List Char) : (operator cs).verdict ≠ .error .endOfInput := by
  unfold operator
  split <;> simp

/-- Of all recognisers only that of any token refuses the end of the text as such. -/
lemma eq_nil_of_read_verdict {recogniser : Recogniser} {cs : List Char}
    (h : (recogniser.read cs).verdict = .error .endOfInput) : cs = [] := by
  cases recogniser with
  | identifier | number => simp [Recogniser.read, identifier, number] at h
  | character => exact absurd h (character_verdict_ne cs)
  | string => exact absurd h (string_verdict_ne cs)
  | operator => exact absurd h (operator_verdict_ne cs)
  | token =>
    cases cs with
    | nil => rfl
    | cons c rest =>
      rw [Recogniser.read, token] at h
      split at h
      · simp [identifier] at h
      split at h
      · simp [number] at h
      split at h
      · exact absurd h (character_verdict_ne _)
      split at h
      · exact absurd h (string_verdict_ne _)
      · exact absurd h (operator_verdict_ne _)

end Lexeme

/-! ## One request -/

namespace Tokenizer

variable {t : Tokenizer} {request : Request}

/-- After a fault that `next` has met, and at the end of the text, there is no next token. -/
def Ended (t : Tokenizer) : Prop :=
  t.failed ∨ t.reader.ahead = []

lemma next_of_ended (h : t.Ended) : t.next.1 = none := by
  unfold next
  split
  · rfl
  next hfailed =>
    have hahead := (Reader.LeadsTo.skipBlanks t.reader).ahead_eq_nil (h.resolve_left hfailed)
    simp [hahead]

/-- What `next` can do, once the blanks are skipped: nothing if the sequence of tokens has ended,
else what a scan of any token does, after which the mark is set. -/
lemma next_cases (t : Tokenizer) :
    (t.next.1 = none ∧ t.next.2.Ended ∧ t.reader.LeadsTo t.next.2.reader ∧
      t.next.2.failed = t.failed) ∨
    (∃ token moved r', t.next = (some (.ok token), ⟨r', false⟩) ∧ t.failed = false ∧
      t.reader.LeadsTo moved ∧ moved.Emits token r' ∧ t.reader.LeadsTo r') ∨
    ∃ fault r', t.next = (some (.error fault), ⟨r', true⟩) ∧ t.reader.LeadsTo r' ∧
      fault.offset = r'.index ∧ fault.cause ≠ .endOfInput := by
  unfold next
  split
  · next hfailed => exact .inl ⟨rfl, .inl hfailed, .here, rfl⟩
  next hfailed =>
  have hskip := Reader.LeadsTo.skipBlanks t.reader
  simp only
  split
  · next hempty => exact .inl ⟨rfl, .inr (List.isEmpty_iff.1 hempty), hskip, rfl⟩
  next hempty =>
  right
  rcases Reader.scan_cases Lexeme.token t.reader.skipBlanks with
    ⟨token, moved, r', hscan, hmoved, hemits, rfl⟩ | ⟨fault, r', hscan, hr', hoffset, hverdict⟩
  · left
    rw [hscan]
    exact ⟨token, moved, moved.mark.mark, rfl, by simpa using hfailed, hskip.trans hmoved,
      hemits.mark rfl, (hskip.trans hmoved).mark.mark⟩
  · right
    rw [hscan]
    refine ⟨fault, r'.mark, rfl, (hskip.trans hr').mark, by rw [hoffset, Reader.index_mark], ?_⟩
    -- A token is scanned only where a character is ahead, so that the end is not to blame.
    intro hcause
    rw [hcause] at hverdict
    have hread : (Recogniser.token.read t.reader.skipBlanks.ahead).verdict = .error .endOfInput :=
      hverdict
    exact hempty (List.isEmpty_iff.2 (Lexeme.eq_nil_of_read_verdict hread))

/-- A scan where the tokenizer stands is one of its reader. -/
lemma scan_eq (t : Tokenizer) (recognise : List Char → Reading Token.Kind) :
    t.scan recognise =
      ((t.reader.scan recognise).1, ⟨(t.reader.scan recognise).2, t.failed⟩) := rfl

lemma scanEscape_eq (t : Tokenizer) :
    t.scanEscape = (t.reader.scanEscape.1, ⟨t.reader.scanEscape.2, t.failed⟩) := rfl

/-- Whatever is asked for, the reader is led on. -/
lemma leadsTo_perform (t : Tokenizer) (request : Request) :
    t.reader.LeadsTo (t.perform request).2.reader := by
  cases request with
  | next =>
    rcases t.next_cases with ⟨-, -, hleads, -⟩ | ⟨_, _, _, hnext, -, -, -, hleads⟩ |
      ⟨_, _, hnext, hleads, -⟩
    · exact hleads
    all_goals rw [perform, hnext]; exact hleads
  | scan recogniser =>
    rw [perform, scan_eq]
    rcases t.reader.scan_cases recogniser.read with
      ⟨_, _, _, hscan, hleads, -, rfl⟩ | ⟨_, _, hscan, hleads, -⟩
    · rw [hscan]; exact hleads.mark
    · rw [hscan]; exact hleads
  | escape =>
    rw [perform, scanEscape_eq]
    rcases t.reader.scanEscape_cases with ⟨_, hscan, hleads⟩ | ⟨_, _, hscan, hleads, -⟩
    all_goals rw [hscan]; exact hleads

/-- Nothing that is asked for makes a tokenizer forget the fault that `next` has met. -/
lemma failed_perform (h : t.failed) (request : Request) : (t.perform request).2.failed := by
  cases request with
  | next =>
    rcases t.next_cases with ⟨-, -, -, hfailed⟩ | ⟨_, _, _, -, hfailed, -⟩ | ⟨_, _, hnext, -⟩
    · exact hfailed.trans h
    · rw [hfailed] at h
      exact absurd h Bool.false_ne_true
    · rw [perform, hnext]
  | scan recogniser => exact h
  | escape => exact h

/-- The token in an answer is cut off where the request has led to. -/
lemma emits_of_perform {token : Token} (h : (t.perform request).1 = .token token) :
    ∃ moved, t.reader.LeadsTo moved ∧ moved.Emits token (t.perform request).2.reader := by
  cases request with
  | next =>
    rcases t.next_cases with ⟨hnext, -⟩ | ⟨_, moved, _, hnext, -, hleads, hemits, -⟩ |
      ⟨_, _, hnext, -⟩
    · simp [perform, hnext] at h
    · obtain rfl : _ = token := by simpa [perform, hnext, Answer.ofScan] using h
      rw [perform, hnext]
      exact ⟨moved, hleads, hemits⟩
    · simp [perform, hnext, Answer.ofScan] at h
  | scan recogniser =>
    rw [perform, scan_eq] at h ⊢
    rcases t.reader.scan_cases recogniser.read with
      ⟨_, moved, _, hscan, hleads, hemits, -⟩ | ⟨_, _, hscan, -⟩
    · obtain rfl : _ = token := by simpa [hscan, Answer.ofScan] using h
      rw [hscan]
      exact ⟨moved, hleads, hemits⟩
    · simp [hscan, Answer.ofScan] at h
  | escape =>
    rcases hscan : t.reader.scanEscape with ⟨_ | _, _⟩ <;>
      simp [perform, scanEscape_eq, hscan, Answer.ofEscape] at h

/-- The fault in an answer is placed where the tokenizer has come to, and it blames the end of the
text only there. -/
lemma fault_of_perform {fault : Fault} (h : (t.perform request).1 = .fault fault) :
    fault.offset = (t.perform request).2.reader.index ∧
      (fault.cause = .endOfInput → t.reader.ahead = []) := by
  cases request with
  | next =>
    rcases t.next_cases with ⟨hnext, -⟩ | ⟨_, _, _, hnext, -⟩ | ⟨_, _, hnext, -, hoffset, hcause⟩
    · simp [perform, hnext] at h
    · simp [perform, hnext, Answer.ofScan] at h
    · obtain rfl : _ = fault := by simpa [perform, hnext, Answer.ofScan] using h
      rw [perform, hnext]
      exact ⟨hoffset, fun hend => absurd hend hcause⟩
  | scan recogniser =>
    rw [perform, scan_eq] at h ⊢
    rcases t.reader.scan_cases recogniser.read with
      ⟨_, _, _, hscan, -⟩ | ⟨_, _, hscan, -, hoffset, hverdict⟩
    · simp [hscan, Answer.ofScan] at h
    · obtain rfl : _ = fault := by simpa [hscan, Answer.ofScan] using h
      rw [hscan]
      refine ⟨hoffset, fun hend => ?_⟩
      rw [hend] at hverdict
      exact Lexeme.eq_nil_of_read_verdict hverdict
  | escape =>
    rw [perform, scanEscape_eq] at h ⊢
    rcases t.reader.scanEscape_cases with ⟨_, hscan, -⟩ | ⟨_, _, hscan, -, hoffset, hverdict⟩
    · simp [hscan, Answer.ofEscape] at h
    · obtain rfl : _ = fault := by simpa [hscan, Answer.ofEscape] using h
      rw [hscan]
      refine ⟨hoffset, fun hend => ?_⟩
      rw [hend] at hverdict
      exact absurd hverdict (Lexeme.escape_verdict_ne _)

/-- Where `next` gives no token, the sequence of tokens has ended. -/
lemma ended_of_perform (h : ∀ token, (t.perform .next).1 ≠ .token token) :
    (t.perform .next).2.Ended := by
  rcases t.next_cases with ⟨-, hended, -⟩ | ⟨token, _, _, hnext, -⟩ | ⟨_, _, hnext, -⟩
  · exact hended
  · exact absurd (by rw [perform, hnext]; rfl) (h token)
  · rw [perform, hnext]
    exact .inl rfl

lemma Ended.perform (h : t.Ended) (request : Request) : (t.perform request).2.Ended :=
  h.imp (fun hfailed => failed_perform hfailed request)
    (leadsTo_perform t request).ahead_eq_nil

end Tokenizer

/-! ## What calls have to do with the text and with each other -/

/-- What one call has to do with the text. -/
structure Call.Faithful (text : List Char) (call : Call) : Prop where
  /-- The index does not decrease. -/
  advances : call.before.reader.index ≤ call.after.reader.index
  /-- The index stays in the text. -/
  index_le : call.after.reader.index ≤ text.length
  /-- No more characters are held than have been read. -/
  pending_le : call.after.reader.pending ≤ call.after.reader.index
  /-- The characters held are those read last. -/
  held_eq : call.after.reader.held.reverse =
    (text.take call.after.reader.index).drop (call.after.reader.index - call.after.reader.pending)
  /-- A token ends where the tokenizer stands, and its literal is what stands at its place. -/
  slice : ∀ token, call.answer = .token token →
    token.endOffset = call.after.reader.index ∧
      token.literal.toList = (text.drop token.offset).take (token.endOffset - token.offset)
  /-- A fault points to where the tokenizer stands. -/
  place : ∀ fault, call.answer = .fault fault → fault.offset = call.after.reader.index
  /-- The end of the text is blamed only where no character is left. -/
  ended : ∀ fault, call.answer = .fault fault → fault.cause = .endOfInput →
    call.before.reader.index = text.length

/-- What a call has to do with every later one. -/
structure Call.Precedes (call later : Call) : Prop where
  /-- The index does not decrease between the two. -/
  index_le : call.after.reader.index ≤ later.before.reader.index
  /-- The token of the later call starts behind that of the earlier one. -/
  token_le : ∀ token token', call.answer = .token token → later.answer = .token token' →
    token.endOffset ≤ token'.offset
  /-- Once `next` has given no token, it gives none, and no fault either. -/
  nothing : call.request = .next → (∀ token, call.answer ≠ .token token) →
    later.request = .next → later.answer = .nothing

namespace Tokenizer

variable {t t' : Tokenizer} {text : List Char}

lemma faithful_call (ht : t.reader.In text) (request : Request) :
    (t.call request).Faithful text := by
  have hleads := leadsTo_perform t request
  have hwithin := hleads.within ht
  have hlength := hwithin.index_add_length
  refine ⟨hleads.index_le, by simp only [call]; omega, Nat.le_add_left _ _, hwithin.held_eq_drop,
    ?_, ?_, ?_⟩
  · intro token htoken
    obtain ⟨moved, hmoved, hemits⟩ := emits_of_perform htoken
    refine ⟨hemits.endOffset_eq, ?_⟩
    have hpending : token.endOffset - token.offset = moved.pending := by
      rw [hemits.endOffset_eq, hemits.index_eq, hemits.offset_eq, Reader.index]
      omega
    rw [hemits.literal_eq, hpending, hemits.offset_eq]
    exact (hmoved.within ht).held_eq
  · exact fun fault hfault => (fault_of_perform hfault).1
  · intro fault hfault hcause
    have hlength := ht.index_add_length
    rw [(fault_of_perform hfault).2 hcause] at hlength
    exact hlength

/-- A call precedes another one that is made where the first has led to. -/
lemma precedes_call {request : Request} (hleads : (t.call request).after.reader.LeadsTo t'.reader)
    (hended : (t.call request).after.Ended → t'.Ended) (request' : Request) :
    (t.call request).Precedes (t'.call request') where
  index_le := hleads.index_le
  token_le token token' htoken htoken' := by
    obtain ⟨moved, -, hemits⟩ := emits_of_perform htoken
    obtain ⟨moved', hmoved', hemits'⟩ := emits_of_perform htoken'
    calc token.endOffset
        = (t.perform request).2.reader.start := by
          rw [hemits.endOffset_eq, hemits.start_eq, hemits.index_eq]
      _ ≤ t'.reader.start := hleads.start_le
      _ ≤ moved'.start := hmoved'.start_le
      _ = token'.offset := hemits'.offset_eq.symm
  nothing hnext hnone hnext' := by
    obtain rfl : request = .next := hnext
    obtain rfl : request' = .next := hnext'
    rw [call, perform, next_of_ended (hended (ended_of_perform hnone))]
    rfl

/-- What every request preserves holds where each call is made. -/
lemma exists_of_mem_calls {P : Tokenizer → Prop} {call : Call} {requests : List Request}
    (hstep : ∀ t request, P t → P (t.perform request).2) (ht : P t)
    (h : call ∈ t.calls requests) : ∃ t' request, call = t'.call request ∧ P t' := by
  induction requests generalizing t with
  | nil => cases h
  | cons request requests ih =>
    rcases List.mem_cons.1 h with rfl | h
    · exact ⟨t, request, rfl, ht⟩
    · exact ih (hstep t request ht) h

lemma map_request_calls (t : Tokenizer) (requests : List Request) :
    (t.calls requests).map Call.request = requests := by
  induction requests generalizing t with
  | nil => rfl
  | cons request requests ih => rw [calls, List.map_cons, ih]; rfl

end Tokenizer

/-- Whatever is asked of a tokenizer, in whatever order and with whatever failures, every request
is answered, each call is faithful to the text, and the calls keep the order of the text. -/
theorem calls_faithful (text : String) (requests : List Request) :
    ((Tokenizer.ofString text).calls requests).map Call.request = requests ∧
    (∀ call ∈ (Tokenizer.ofString text).calls requests, call.Faithful text.toList) ∧
    ((Tokenizer.ofString text).calls requests).Pairwise Call.Precedes := by
  refine ⟨Tokenizer.map_request_calls _ requests, ?_, ?_⟩
  · intro call hcall
    obtain ⟨t, request, rfl, ht⟩ := Tokenizer.exists_of_mem_calls
      (P := fun t => t.reader.In text.toList)
      (fun t request ht => (Tokenizer.leadsTo_perform t request).within ht)
      (Reader.in_ofList text.toList) hcall
    exact Tokenizer.faithful_call ht request
  · -- A call is compared with all later ones at once: what it has led to leads on to each of them.
    generalize Tokenizer.ofString text = t
    induction requests generalizing t with
    | nil => exact .nil
    | cons request requests ih =>
      refine .cons (fun call hcall => ?_) (ih _)
      obtain ⟨t', request', rfl, hleads, hended⟩ := Tokenizer.exists_of_mem_calls
        (P := fun t' => (t.call request).after.reader.LeadsTo t'.reader ∧
          ((t.call request).after.Ended → t'.Ended))
        (fun t' request' ht' => ⟨ht'.1.trans (Tokenizer.leadsTo_perform t' request'),
          fun h => (ht'.2 h).perform request'⟩)
        ⟨.here, id⟩ hcall
      exact Tokenizer.precedes_call hleads hended request'

/-- What a failed request has read begins the token of the next one that succeeds. -/
example :
    ((Tokenizer.ofString "'a b'c d").calls
      [.scan .character, .scan .identifier, .scan .character, .next, .scan .token, .next]).map
        Call.answer =
      [.fault ⟨.unterminatedCharacter, 3⟩, .token ⟨.identifier, "'a b", 0⟩,
        .fault ⟨.unterminatedCharacter, 7⟩, .token ⟨.identifier, "'c d", 4⟩,
        .fault ⟨.endOfInput, 8⟩, .nothing] := by
  cbv

end LetDef
