import Switchboard.Interpreter.Evaluate
import Switchboard.Script.Condition

/-!
# Switchboard.Proofs.Script.Chain

Conditions as chains: in words, in clauses, and in brackets.

```
chain  ::= clause | chain 'and' clause | chain 'or' clause
clause ::= test | ('!' | 'not') test
test   ::= '-empty' arg | '-defined' name | arg comparison arg | arg
```

1. The words of the grammar are bare.  A clause holds no bare `and` or `or`, and one
   that is not negated does not begin with a bare `!` or `not`.
2. A chain says of its tokens which clauses they write, and which formula: the one
   that is bracketed from the left, whatever joins the clauses (`Chain`).
3. A condition is read exactly if its tokens are a chain, and where all its tests
   have values, so has the condition, namely that of the formula
   (`Condition.read_iff_chain`).
-/

namespace Switchboard

/-! ## words -/

/-- A word without quotes. -/
def Token.bare (word : String) : Token := ⟨word, false⟩

/-- A token is a bare word exactly if it was written as one. -/
theorem Token.isBare_iff {t : Token} {word : String} : t.isBare word = true ↔ t = .bare word := by
  cases t
  simp [Token.isBare, Token.bare, and_comm]

/-- Words that join two clauses. -/
inductive Join.Word : Join → Token → Prop
  | and : Word .and (.bare "and")
  | or : Word .or (.bare "or")

/-- Words that negate a clause. -/
def Token.Negates (t : Token) : Prop := t = .bare "!" ∨ t = .bare "not"

/-- A token joins clauses exactly if it is the word for that. -/
theorem Condition.joinOf?_eq_some_iff {t : Token} {join : Join} :
    joinOf? t = some join ↔ join.Word t := by
  unfold joinOf?
  constructor
  · intro h
    split at h
    · next hand =>
        obtain rfl := Option.some.inj h
        exact Token.isBare_iff.mp hand ▸ .and
    · split at h
      · next hor =>
          obtain rfl := Option.some.inj h
          exact Token.isBare_iff.mp hor ▸ .or
      · contradiction
  · rintro (_ | _) <;> decide

/-- A token negates exactly if it is the word for that. -/
theorem Condition.negates_iff {t : Token} : negates t = true ↔ t.Negates := by
  simp [negates, Token.Negates, Token.isBare_iff]

/-- A comparison is read from its own word only. -/
theorem Comparison.ofText?_eq_some_iff {text : String} {op : Comparison} :
    ofText? text = some op ↔ text = op.text := by
  constructor
  · intro h
    unfold ofText? at h
    split at h <;> cases h <;> rfl
  · rintro rfl
    rcases op with relation | same
    · cases relation <;> rfl
    · cases same <;> rfl

/-! ## tests -/

namespace Test

/-- The tokens write the test. -/
inductive Written : List Token → Test → Prop
  | value (arg : Token) : Written [arg] (.value arg.argument)
  | empty (arg : Token) : Written [.bare "-empty", arg] (.empty arg.argument)
  | defined (name : Token) : Written [.bare "-defined", name] (.defined name.symbolName)
  | compare (lhs : Token) (op : Comparison) (rhs : Token) :
      Written [lhs, .bare op.text, rhs] (.compare lhs.argument op rhs.argument)

/-- A test that is read from tokens is written by them. -/
theorem written_of_ofTokens? {tokens : List Token} {test : Test}
    (h : ofTokens? tokens = some test) : Written tokens test := by
  unfold ofTokens? at h
  split at h
  · next arg =>
      obtain rfl := Option.some.inj h
      exact .value arg
  · next word arg =>
      split at h
      · next hword =>
          obtain rfl := Option.some.inj h
          exact Token.isBare_iff.mp hword ▸ .empty arg
      · split at h
        · next hword =>
            obtain rfl := Option.some.inj h
            exact Token.isBare_iff.mp hword ▸ .defined arg
        · contradiction
  · next lhs op rhs =>
      split at h
      · contradiction
      · next hquoted =>
          obtain ⟨c, hc, rfl⟩ := Option.map_eq_some_iff.mp h
          have hop : op = .bare c.text := by
            rw [← Comparison.ofText?_eq_some_iff.mp hc]
            simp [Token.bare, ← Bool.eq_false_iff.mpr hquoted]
          exact hop ▸ .compare lhs c rhs
  · contradiction

/-- A test that is written by tokens is read from them. -/
theorem Written.ofTokens? {tokens : List Token} {test : Test} (h : Written tokens test) :
    ofTokens? tokens = some test := by
  cases h with
  | value arg => rfl
  | empty arg => rfl
  | defined name => rfl
  | compare lhs op rhs =>
      have hop : Comparison.ofText? op.text = some op := Comparison.ofText?_eq_some_iff.mpr rfl
      simp [Test.ofTokens?, Token.bare, hop]

end Test

/-! ## clauses -/

namespace Condition

/-- The tokens write a clause, without the word that joins it. -/
inductive Part : List Token → Bool → Test → Prop
  | plain {tokens : List Token} {test : Test} : Test.Written tokens test →
      (∀ t ∈ tokens.head?, ¬ t.Negates) → (∀ t ∈ tokens, ∀ join, ¬ Join.Word join t) →
      Part tokens false test
  | negated {mark : Token} {tokens : List Token} {test : Test} : mark.Negates →
      Test.Written tokens test → (∀ t ∈ tokens, ∀ join, ¬ Join.Word join t) →
      Part (mark :: tokens) true test

/-- No token of a list joins clauses. -/
def Plain (tokens : List Token) : Prop := ∀ t ∈ tokens, joinOf? t = none

/-- Tokens without a join are those of which none is a word that joins. -/
theorem plain_iff {tokens : List Token} :
    Plain tokens ↔ ∀ t ∈ tokens, ∀ join, ¬ Join.Word join t := by
  simp [Plain, Option.eq_none_iff_forall_not_mem, joinOf?_eq_some_iff]

/-- A clause that is read from tokens is one part of a chain. -/
theorem part_of_clause? {join : Join} {tokens : List Token} {c : Clause}
    (h : clause? join tokens = some c) (hplain : Plain tokens) :
    c.join = join ∧ Part tokens c.negate c.test := by
  unfold clause? at h
  split at h
  · next t rest =>
      split at h
      · next hneg =>
          obtain ⟨test, htest, rfl⟩ := Option.map_eq_some_iff.mp h
          have hrest : Plain rest := fun u hu => hplain u (List.mem_cons_of_mem t hu)
          exact ⟨rfl, .negated (negates_iff.mp hneg) (Test.written_of_ofTokens? htest)
            (plain_iff.mp hrest)⟩
      · next hneg =>
          obtain ⟨test, htest, rfl⟩ := Option.map_eq_some_iff.mp h
          refine ⟨rfl, .plain (Test.written_of_ofTokens? htest) ?_ (plain_iff.mp hplain)⟩
          simpa [← negates_iff] using hneg
  · contradiction

/-- No token of a clause joins. -/
theorem Part.plain_tokens {tokens : List Token} {negate : Bool} {test : Test}
    (h : Part tokens negate test) : Plain tokens := by
  cases h with
  | plain _ _ hplain => exact plain_iff.mpr hplain
  | negated hmark _ hplain =>
      refine List.forall_mem_cons.mpr ⟨?_, plain_iff.mpr hplain⟩
      rcases hmark with rfl | rfl <;> rfl

/-- A clause is read from the tokens that write it. -/
theorem Part.clause? {tokens : List Token} {negate : Bool} {test : Test}
    (h : Part tokens negate test) (join : Join) :
    clause? join tokens = some ⟨join, negate, test⟩ := by
  cases h with
  | plain hwritten hhead _ =>
      cases tokens with
      | nil => cases hwritten
      | cons t rest =>
          have hneg : negates t = false := by simpa [← negates_iff] using hhead
          simp [Condition.clause?, hneg, hwritten.ofTokens?]
  | negated hmark hwritten _ =>
      simp [Condition.clause?, negates_iff.mpr hmark, hwritten.ofTokens?]

/-! ## chains -/

/-- A formula in full brackets. -/
inductive Formula where
  | test (negate : Bool) (test : Test)
  | and (left right : Formula)
  | or (left right : Formula)

/-- Whether a formula holds if its tests have these values. -/
def Formula.holds (value : Test → Bool) : Formula → Bool
  | .test negate t => if negate then !value t else value t
  | .and left right => left.holds value && right.holds value
  | .or left right => left.holds value || right.holds value

/-- The tokens write these clauses, and this formula. -/
inductive Chain : List Token → Condition → Formula → Prop
  | first {tokens : List Token} {negate : Bool} {test : Test} : Part tokens negate test →
      Chain tokens [⟨.first, negate, test⟩] (.test negate test)
  | and {tokens others : List Token} {cond : Condition} {f : Formula} {negate : Bool}
      {test : Test} : Chain tokens cond f → Part others negate test →
      Chain (tokens ++ .bare "and" :: others) (cond ++ [⟨.and, negate, test⟩])
        (.and f (.test negate test))
  | or {tokens others : List Token} {cond : Condition} {f : Formula} {negate : Bool}
      {test : Test} : Chain tokens cond f → Part others negate test →
      Chain (tokens ++ .bare "or" :: others) (cond ++ [⟨.or, negate, test⟩])
        (.or f (.test negate test))

/-! ### what is read is a chain -/

/-- What comes before a clause: nothing, or a chain and the word that joins the clause. -/
def Before (join : Join) (tokens : List Token) (cond : Condition) : Prop :=
  (join = .first ∧ tokens = [] ∧ cond = []) ∨
    ∃ chain f mark, tokens = chain ++ [mark] ∧ Chain chain cond f ∧ join.Word mark

/-- What has been read, and one clause more, is a chain. -/
theorem Before.chain {join : Join} {tokens others : List Token} {cond : Condition}
    {negate : Bool} {test : Test} (h : Before join tokens cond) (hpart : Part others negate test) :
    ∃ f, Chain (tokens ++ others) (cond ++ [⟨join, negate, test⟩]) f := by
  rcases h with ⟨rfl, rfl, rfl⟩ | ⟨chain, f, mark, rfl, hchain, hword⟩
  · exact ⟨_, .first hpart⟩
  · rw [List.append_assoc, List.singleton_append]
    cases hword with
    | and => exact ⟨_, .and hchain hpart⟩
    | or => exact ⟨_, .or hchain hpart⟩

/-- The clauses that are read go on with the chain before them. -/
theorem chain_of_clauses {join : Join} {before held tokens : List Token} {cond cs : Condition}
    (h : clauses join held tokens = .ok cs) (hbefore : Before join before cond)
    (hheld : Plain held) : ∃ f, Chain (before ++ held ++ tokens) (cond ++ cs) f := by
  induction tokens generalizing join before held cond cs with
  | nil =>
      unfold clauses at h
      split at h
      · next c hc =>
          obtain rfl := Except.ok.inj h
          obtain ⟨rfl, hpart⟩ := part_of_clause? hc hheld
          simpa using hbefore.chain hpart
      · contradiction
  | cons t rest ih =>
      unfold clauses at h
      split at h
      · next hnone =>
          have hmore : Plain (held ++ [t]) :=
            List.forall_mem_append.mpr ⟨hheld, by simpa using hnone⟩
          simpa using ih h hbefore hmore
      · next next hnext =>
          split at h
          · contradiction
          · next c hc =>
              split at h
              · contradiction
              · obtain ⟨others, hothers, rfl⟩ : ∃ others, clauses next [] rest = .ok others ∧
                    c :: others = cs := by
                  cases hothers : clauses next [] rest <;> simp_all [Except.map]
                obtain ⟨rfl, hpart⟩ := part_of_clause? hc hheld
                obtain ⟨f, hchain⟩ := hbefore.chain hpart
                have hword := joinOf?_eq_some_iff.mp hnext
                have hplain : Plain [] := by simp [Plain]
                simpa using ih hothers (.inr ⟨_, f, t, rfl, hchain, hword⟩) hplain

/-! ### chains are read -/

/-- Up to a joining word all tokens belong to one clause. -/
theorem clauses_of_plain {join : Join} {held tokens : List Token} {c : Clause}
    (hplain : Plain tokens) (hc : clause? join (held ++ tokens) = some c) :
    clauses join held tokens = .ok [c] := by
  induction tokens generalizing held with
  | nil =>
      rw [List.append_nil] at hc
      simp [clauses, hc]
  | cons t rest ih =>
      obtain ⟨ht, hrest⟩ := List.forall_mem_cons.mp hplain
      have hheld : held ++ t :: rest = held ++ [t] ++ rest := by simp
      simp [clauses, ht, ih hrest (hheld ▸ hc)]

/-- One more clause is read behind those before it. -/
theorem clauses_snoc {join next : Join} {held tokens others : List Token} {mark : Token}
    {cs : Condition} {c : Clause} (h : clauses join held tokens = .ok cs)
    (hmark : joinOf? mark = some next) (hplain : Plain others)
    (hc : clause? next others = some c) :
    clauses join held (tokens ++ mark :: others) = .ok (cs ++ [c]) := by
  induction tokens generalizing join held cs with
  | nil =>
      have hne : others ≠ [] := by
        rintro rfl
        contradiction
      have hlast : clauses next [] others = .ok [c] := clauses_of_plain hplain hc
      unfold clauses at h
      split at h
      · next here hhere =>
          obtain rfl := Except.ok.inj h
          simp [clauses, hmark, hhere, hne, hlast, Except.map]
      · contradiction
  | cons t rest ih =>
      rw [List.cons_append]
      unfold clauses at h ⊢
      split at h
      · next hnone => exact ih h
      · next word hword =>
          split at h
          · contradiction
          · next here hhere =>
              split at h
              · contradiction
              · cases hothers : clauses word [] rest with
                | error e => simp [hothers, Except.map] at h
                | ok later =>
                    obtain rfl : here :: later = cs := by simpa [hothers, Except.map] using h
                    simp [ih hothers, Except.map]

/-- The clauses of a chain are read from its tokens. -/
theorem Chain.clauses {tokens : List Token} {cond : Condition} {f : Formula}
    (h : Chain tokens cond f) : clauses .first [] tokens = .ok cond := by
  induction h with
  | first hpart => exact clauses_of_plain hpart.plain_tokens (hpart.clause? .first)
  | and _ hpart ih => exact clauses_snoc ih rfl hpart.plain_tokens (hpart.clause? .and)
  | or _ hpart ih => exact clauses_snoc ih rfl hpart.plain_tokens (hpart.clause? .or)

/-- A chain has at least one token. -/
theorem Chain.ne_nil {tokens : List Token} {cond : Condition} {f : Formula}
    (h : Chain tokens cond f) : tokens ≠ [] := by
  rintro rfl
  have hread := h.clauses
  contradiction

/-- Conditions are read from chains, and from nothing else. -/
theorem ofTokens_eq_ok_iff {tokens : List Token} {cond : Condition} :
    ofTokens tokens = .ok cond ↔ ∃ f, Chain tokens cond f := by
  unfold ofTokens
  constructor
  · intro h
    split at h
    · contradiction
    · have hstart : Before .first [] [] := .inl ⟨rfl, rfl, rfl⟩
      have hplain : Plain [] := by simp [Plain]
      simpa using chain_of_clauses h hstart hplain
  · rintro ⟨f, h⟩
    simp [h.ne_nil, h.clauses]

/-! ## values -/

/-- Clauses go on with the result of those before them. -/
theorem chain_append (s : Interpreter) (result : Bool) (cs ds : Condition) :
    s.chain result (cs ++ ds) = s.chain result cs >>= fun r => s.chain r ds := by
  induction cs generalizing result with
  | nil => rfl
  | cons c rest ih =>
      rw [List.cons_append, Interpreter.chain, Interpreter.chain]
      cases s.test c.test with
      | error e => rfl
      | ok holds => exact ih _

/-- A clause whose test has a value joins it, or its opposite, to the result so far. -/
theorem chain_singleton {s : Interpreter} {test : Test} {holds : Bool}
    (h : s.test test = .ok holds) (result : Bool) (join : Join) (negate : Bool) :
    s.chain result [⟨join, negate, test⟩] =
      .ok (join.apply result (if negate then !holds else holds)) := by
  cases negate <;> simp [Interpreter.chain, h, bind, Except.bind]

/-- A condition has the value of the formula of its chain, where its tests have values. -/
theorem Chain.condition {tokens : List Token} {cond : Condition} {f : Formula} {s : Interpreter}
    {value : Test → Bool} (h : Chain tokens cond f)
    (hvalue : ∀ c ∈ cond, s.test c.test = .ok (value c.test)) :
    s.condition cond = .ok (f.holds value) := by
  unfold Interpreter.condition
  induction h with
  | first _ => exact chain_singleton (hvalue _ List.mem_cons_self) _ _ _
  | and _ _ ih =>
      obtain ⟨hbefore, hlast⟩ := List.forall_mem_append.mp hvalue
      rw [chain_append, ih hbefore]
      exact chain_singleton (hlast _ List.mem_cons_self) _ _ _
  | or _ _ ih =>
      obtain ⟨hbefore, hlast⟩ := List.forall_mem_append.mp hvalue
      rw [chain_append, ih hbefore]
      exact chain_singleton (hlast _ List.mem_cons_self) _ _ _

/-- Tokens are read as a condition exactly if they are a chain, whose clauses the
condition has in order.  In every state in which its tests have values, the
condition has the value of the formula that is bracketed from the left. -/
theorem read_iff_chain (tokens : List Token) (cond : Condition) :
    (ofTokens tokens = .ok cond ↔ ∃ f, Chain tokens cond f) ∧
      ∀ f, Chain tokens cond f → ∀ (s : Interpreter) (value : Test → Bool),
        (∀ c ∈ cond, s.test c.test = .ok (value c.test)) →
          s.condition cond = .ok (f.holds value) :=
  ⟨ofTokens_eq_ok_iff, fun _ h _ _ hvalue => h.condition hvalue⟩

/-- `"1" and "1" or "" and ""` is `(("1" and "1") or "") and ""`, which does not hold.
It would hold if `and` took precedence. -/
theorem read_iff_chain_four_tests :
    let arg (text : String) : Token := ⟨text, true⟩
    let test (text : String) : Formula := .test false (.value (.literal text))
    let tokens := [arg "1", .bare "and", arg "1", .bare "or", arg "", .bare "and", arg ""]
    let f := Formula.and (.or (.and (test "1") (test "1")) (test "")) (test "")
    ∃ cond, ofTokens tokens = .ok cond ∧ Chain tokens cond f ∧
      (Interpreter.new .default).condition cond = .ok false := by
  intro arg test tokens f
  have hpart (text : String) : Part [arg text] false (.value (.literal text)) := by
    refine .plain (.value (arg text)) ?_ ?_ <;> rintro t ht
    · obtain rfl : arg text = t := by simpa using ht
      simp [arg, Token.Negates, Token.bare]
    · obtain rfl : t = arg text := List.mem_singleton.mp ht
      rintro join ⟨_⟩
  have hchain : Chain tokens _ f :=
    .and (.or (.and (.first (hpart "1")) (hpart "1")) (hpart "")) (hpart "")
  let value : Test → Bool := fun t => t == .value (.literal "1")
  have hone : (Interpreter.new .default).test (.value (.literal "1")) = .ok true := rfl
  have hnone : (Interpreter.new .default).test (.value (.literal "")) = .ok false := rfl
  exact ⟨_, (read_iff_chain tokens _).1.mpr ⟨f, hchain⟩, hchain,
    (read_iff_chain tokens _).2 f hchain _ value (by simp [value, hone, hnone])⟩

end Condition

end Switchboard
