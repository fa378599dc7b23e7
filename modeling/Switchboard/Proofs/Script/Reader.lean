import Switchboard.Proofs.Script.Chain
import Switchboard.Script.Statement

/-!
# Switchboard.Proofs.Script.Reader

How a statement is read.

1. The first word says which statement it is.  There is one case for each form of
   statement, with what is required of the tokens behind the word and of the innermost
   block, and with the blocks that are open after it (`Simple`, `Branches`, `Loops`).
2. A word that has no such case must be a command of the application (`Reads`).
3. What is read is one of these cases: `reads_of_read`.
-/

namespace Switchboard

/-- What is done in two parts is done part by part. -/
theorem ok_of_bind {ε α β : Type} {x : Except ε α} {f : α → Except ε β} {b : β}
    (h : x >>= f = .ok b) : ∃ a, x = .ok a ∧ f a = .ok b := by
  cases x with
  | error e => exact nomatch h
  | ok a => exact ⟨a, rfl, h⟩

namespace Statement

/-! ## the forms of statement -/

/-- Statements that leave the blocks alone. -/
inductive Simple (rest : List Token) : String → Command → Prop
  | set {name : String} : target "set" rest = .ok name →
      Simple rest "set" (.set name (arguments rest.tail))
  | clear : rest ≠ [] → Simple rest "clear" (.clear (rest.map Token.symbolName))
  | declare {name : String} {size : Option Nat} {values : List Argument} :
      target "var" rest = .ok name → sized none (arguments rest.tail) = .ok (size, values) →
      Simple rest "var" (.declare name size values)
  | expr {t op : Token} {expression : List Token} {name : String}
      {assignment : Decimal.Assignment} : rest = t :: op :: expression →
      target "expr" rest = .ok name → op.quoted = false →
      Decimal.Assignment.ofText? op.text = some assignment → expression ≠ [] →
      Simple rest "expr" (.expr name assignment (arguments expression))
  | index {name : String} {expression : List Token} : target "index" rest = .ok name →
      (rest.tail = .bare "=" :: expression ∨
        rest.tail = expression ∧ expression.head? ≠ some (.bare "=")) → expression ≠ [] →
      Simple rest "index" (.index name (arguments expression))
  | goto : rest ≠ [] → Simple rest "goto" (.goto (arguments rest))
  | gosub : rest ≠ [] → Simple rest "gosub" (.gosub (arguments rest))
  | invoke {t : Token} {args : List Token} {bound : List (String × Argument)} :
      rest = t :: args → t.quoted = false → bindings args = .ok bound →
      Simple rest "invoke" (.invoke (Header.bare t.text) bound)
  | leave : Simple rest "return" .leave
  | exit : Simple rest "exit" .exit
  | raise : Simple rest "error" (.raise (arguments rest))

/-- Statements that open, divide or close a branch or a choice. -/
inductive Branches (rest : List Token) (nest : Nest) (line : UInt32) :
    String → Command → Nest → Prop
  | branch {cond : Condition} : Condition.ofTokens rest = .ok cond →
      Branches rest nest line "if" (.branch cond) (nest.enter (.branch false) line)
  | elseBranch {cond : Condition} : nest.innermost? = some (.branch false) →
      Condition.ofTokens rest = .ok cond → Branches rest nest line "elif" (.elseBranch cond) nest
  | otherBranch : nest.innermost? = some (.branch false) →
      Branches rest nest line "else" .otherBranch (nest.become (.branch true))
  | endBranch {last : Bool} : nest.innermost? = some (.branch last) →
      Branches rest nest line "endif" .endBranch nest.close
  | nextChoice {cond : Condition} : nest.innermost? = some (.choice false) →
      Condition.ofTokens rest = .ok cond → Branches rest nest line "case" (.choice cond false) nest
  | choice {cond : Condition} : (∀ last, nest.innermost? ≠ some (.choice last)) →
      Condition.ofTokens rest = .ok cond →
      Branches rest nest line "case" (.choice cond true) (nest.enter (.choice false) line)
  | otherChoice : nest.innermost? = some (.choice false) →
      Branches rest nest line "otherwise" .otherChoice (nest.become (.choice true))
  | endChoice {last : Bool} : nest.innermost? = some (.choice last) →
      Branches rest nest line "endcase" .endChoice nest.close

/-- Statements that open, close or leave a loop. -/
inductive Loops (rest : List Token) (nest : Nest) (line : UInt32) :
    String → Command → Nest → Prop
  | doLoop : Loops rest nest line "do" .doLoop (nest.enterLoop true line)
  | whileLoop {cond : Condition} : Condition.ofTokens rest = .ok cond →
      Loops rest nest line "while" (.whileLoop cond) (nest.enterLoop false line)
  | repeatLoop {count : Token} {extra : List Token} : rest = count :: extra →
      Loops rest nest line "repeat" (.repeatLoop count.argument) (nest.enterLoop false line)
  | eachLoop {name : String} {items : Token} {extra : List Token} {c : Char} :
      target "foreach" rest = .ok name → rest.tail = items :: extra →
      delimiter extra.head? = .ok c →
      Loops rest nest line "foreach" (.eachLoop name items.argument c) (nest.enterLoop false line)
  | endLoop {untilAllowed : Bool} : nest.innermost? = some (.loop untilAllowed) →
      Loops rest nest line "loop" .endLoop nest.closeLoop
  | untilLoop {cond : Condition} : nest.innermost? = some (.loop true) →
      Condition.ofTokens rest = .ok cond →
      Loops rest nest line "until" (.untilLoop cond) nest.closeLoop
  | breakLoop : nest.inLoop = true → Loops rest nest line "break" .breakLoop nest
  | continueLoop : nest.inLoop = true → Loops rest nest line "continue" .continueLoop nest

/-- What a statement is read as, by its first word and the tokens behind it. -/
inductive Reads (commands : Commands) (nest : Nest) (line : UInt32) (rest : List Token)
    (word : String) : Accepted → Prop
  | simple {c : Command} : simple word rest = .ok (some c) →
      Reads commands nest line rest word ⟨c, 0, nest⟩
  | branching {c : Command} {after : Nest} : simple word rest = .ok none →
      branching word rest nest line = .ok (some (c, after)) →
      Reads commands nest line rest word ⟨c, 0, after⟩
  | looping {c : Command} {after : Nest} : simple word rest = .ok none →
      branching word rest nest line = .ok none →
      looping word rest nest line = .ok (some (c, after)) →
      Reads commands nest line rest word ⟨c, 0, after⟩
  | application {mask : Mask} : simple word rest = .ok none →
      branching word rest nest line = .ok none → looping word rest nest line = .ok none →
      commands.mask? word = some mask →
      Reads commands nest line rest word ⟨.application word (arguments rest), mask, nest⟩

/-! ## what is read -/

section
variable {word : String} {rest : List Token} {nest after : Nest} {line : UInt32} {c : Command}

/-- The words of statements that leave the blocks alone. -/
def simpleWords : List String :=
  ["set", "clear", "var", "expr", "index", "goto", "gosub", "invoke", "return", "exit", "error"]

/-- The words of statements that open, divide or close a branch or a choice. -/
def branchingWords : List String :=
  ["if", "elif", "else", "endif", "case", "otherwise", "endcase"]

/-- The words of statements that open, close or leave a loop. -/
def loopingWords : List String :=
  ["do", "while", "repeat", "foreach", "loop", "until", "break", "continue"]

theorem simple_of_expr {r : Option Command} (h : simple "expr" rest = .ok r) :
    ∃ c, r = some c ∧ Simple rest "expr" c := by
  obtain ⟨name, hname, hread⟩ := ok_of_bind h
  split at hread
  · next t op expression =>
      split at hread
      · contradiction
      · next assignment hop =>
          obtain ⟨hquoted, hop⟩ : op.quoted = false ∧
              Decimal.Assignment.ofText? op.text = some assignment := by
            cases hq : op.quoted with
            | true => simp [hq] at hop
            | false => exact ⟨rfl, by simpa [hq] using hop⟩
          split at hread
          · contradiction
          · next hne =>
              refine ⟨_, (Except.ok.inj hread).symm, ?_⟩
              exact .expr rfl hname hquoted hop (by simpa using hne)
  · contradiction

theorem simple_of_index {r : Option Command} (h : simple "index" rest = .ok r) :
    ∃ c, r = some c ∧ Simple rest "index" c := by
  obtain ⟨name, hname, hread⟩ := ok_of_bind h
  cases htail : rest.tail with
  | nil => simp [htail] at hread
  | cons t others =>
      simp only [htail] at hread
      by_cases ht : t.isBare "=" = true
      · rw [if_pos ht] at hread
        split at hread
        · contradiction
        · next hne =>
            refine ⟨_, (Except.ok.inj hread).symm, .index hname (.inl ?_) (by simpa using hne)⟩
            rw [htail, Token.isBare_iff.mp ht]
      · rw [if_neg ht] at hread
        refine ⟨_, (Except.ok.inj hread).symm, .index hname (.inr ⟨htail, fun hhead => ht ?_⟩) ?_⟩
        · exact Token.isBare_iff.mpr (Option.some.inj hhead)
        · simp

theorem simple_of_invoke {r : Option Command} (h : simple "invoke" rest = .ok r) :
    ∃ c, r = some c ∧ Simple rest "invoke" c := by
  simp only [simple] at h
  split at h
  · next t args =>
      split at h
      · contradiction
      · next hquoted =>
          cases hbound : bindings args with
          | error p => simp [hbound, Except.map] at h
          | ok bound =>
              refine ⟨.invoke (Header.bare t.text) bound, ?_, ?_⟩
              · simpa [hbound, Except.map] using h.symm
              · exact .invoke rfl (by simpa using hquoted) hbound
  · contradiction

/-- What is read of a word of statements that leave the blocks alone. -/
theorem simple_of_ok {r : Option Command} (h : simple word rest = .ok r) :
    (∃ c, r = some c ∧ Simple rest word c) ∨ r = none ∧ word ∉ simpleWords := by
  unfold simple at h
  split at h
  case h_1 =>
    obtain ⟨name, hname, hread⟩ := ok_of_bind h
    exact .inl ⟨_, (Except.ok.inj hread).symm, .set hname⟩
  case h_2 =>
    split at h
    · contradiction
    · next hne => exact .inl ⟨_, (Except.ok.inj h).symm, .clear (by simpa using hne)⟩
  case h_3 =>
    obtain ⟨name, hname, hread⟩ := ok_of_bind h
    obtain ⟨⟨size, values⟩, hsized, hread⟩ := ok_of_bind hread
    exact .inl ⟨_, (Except.ok.inj hread).symm, .declare hname hsized⟩
  case h_4 => exact .inl (simple_of_expr h)
  case h_5 => exact .inl (simple_of_index h)
  case h_6 =>
    split at h
    · contradiction
    · next hne => exact .inl ⟨_, (Except.ok.inj h).symm, .goto (by simpa using hne)⟩
  case h_7 =>
    split at h
    · contradiction
    · next hne => exact .inl ⟨_, (Except.ok.inj h).symm, .gosub (by simpa using hne)⟩
  case h_8 => exact .inl (simple_of_invoke h)
  case h_9 => exact .inl ⟨_, (Except.ok.inj h).symm, .leave⟩
  case h_10 => exact .inl ⟨_, (Except.ok.inj h).symm, .exit⟩
  case h_11 => exact .inl ⟨_, (Except.ok.inj h).symm, .raise⟩
  case h_12 =>
    refine .inr ⟨(Except.ok.inj h).symm, ?_⟩
    simp_all [simpleWords]

/-- What is read of a word of branches and choices. -/
theorem branches_of_ok {r : Option (Command × Nest)} (h : branching word rest nest line = .ok r) :
    (∃ c after, r = some (c, after) ∧ Branches rest nest line word c after) ∨
      r = none ∧ word ∉ branchingWords := by
  unfold branching at h
  split at h
  case h_1 =>
    obtain ⟨cond, hcond, h⟩ := ok_of_bind h
    exact .inl ⟨_, _, (Except.ok.inj h).symm, .branch hcond⟩
  case h_2 =>
    split at h
    · next hinner =>
        obtain ⟨cond, hcond, h⟩ := ok_of_bind h
        exact .inl ⟨_, _, (Except.ok.inj h).symm, .elseBranch hinner hcond⟩
    · contradiction
    · contradiction
  case h_3 =>
    split at h
    · next hinner => exact .inl ⟨_, _, (Except.ok.inj h).symm, .otherBranch hinner⟩
    · contradiction
    · contradiction
  case h_4 =>
    split at h
    · next hinner => exact .inl ⟨_, _, (Except.ok.inj h).symm, .endBranch hinner⟩
    · contradiction
  case h_5 =>
    obtain ⟨cond, hcond, h⟩ := ok_of_bind h
    split at h
    · contradiction
    · next hinner => exact .inl ⟨_, _, (Except.ok.inj h).symm, .nextChoice hinner hcond⟩
    · next htrue hfalse =>
        refine .inl ⟨_, _, (Except.ok.inj h).symm, .choice (fun last => ?_) hcond⟩
        cases last with
        | true => exact htrue
        | false => exact hfalse
  case h_6 =>
    split at h
    · next hinner => exact .inl ⟨_, _, (Except.ok.inj h).symm, .otherChoice hinner⟩
    · contradiction
    · contradiction
  case h_7 =>
    split at h
    · next hinner => exact .inl ⟨_, _, (Except.ok.inj h).symm, .endChoice hinner⟩
    · contradiction
  case h_8 =>
    refine .inr ⟨(Except.ok.inj h).symm, ?_⟩
    simp_all [branchingWords]

/-- What is read of a word of loops. -/
theorem loops_of_ok {r : Option (Command × Nest)} (h : looping word rest nest line = .ok r) :
    (∃ c after, r = some (c, after) ∧ Loops rest nest line word c after) ∨
      r = none ∧ word ∉ loopingWords := by
  unfold looping at h
  split at h
  case h_1 => exact .inl ⟨_, _, (Except.ok.inj h).symm, .doLoop⟩
  case h_2 =>
    obtain ⟨cond, hcond, h⟩ := ok_of_bind h
    exact .inl ⟨_, _, (Except.ok.inj h).symm, .whileLoop hcond⟩
  case h_3 =>
    split at h
    · exact .inl ⟨_, _, (Except.ok.inj h).symm, .repeatLoop rfl⟩
    · contradiction
  case h_4 =>
    obtain ⟨name, hname, h⟩ := ok_of_bind h
    split at h
    · contradiction
    · next items extra htail =>
        obtain ⟨c, hc, h⟩ := ok_of_bind h
        exact .inl ⟨_, _, (Except.ok.inj h).symm, .eachLoop hname htail hc⟩
  case h_5 =>
    split at h
    · next hinner => exact .inl ⟨_, _, (Except.ok.inj h).symm, .endLoop hinner⟩
    · contradiction
  case h_6 =>
    split at h
    · next hinner =>
        obtain ⟨cond, hcond, h⟩ := ok_of_bind h
        exact .inl ⟨_, _, (Except.ok.inj h).symm, .untilLoop hinner hcond⟩
    · contradiction
    · contradiction
  case h_7 =>
    split at h
    · next hinside => exact .inl ⟨_, _, (Except.ok.inj h).symm, .breakLoop hinside⟩
    · contradiction
  case h_8 =>
    split at h
    · next hinside => exact .inl ⟨_, _, (Except.ok.inj h).symm, .continueLoop hinside⟩
    · contradiction
  case h_9 =>
    refine .inr ⟨(Except.ok.inj h).symm, ?_⟩
    simp_all [loopingWords]

theorem simple_of_some (h : simple word rest = .ok (some c)) : Simple rest word c := by
  rcases simple_of_ok h with ⟨c, ⟨rfl⟩, hcase⟩ | ⟨hnone, -⟩
  · exact hcase
  · contradiction

theorem branches_of_some (h : branching word rest nest line = .ok (some (c, after))) :
    Branches rest nest line word c after := by
  rcases branches_of_ok h with ⟨c, after, ⟨rfl, rfl⟩, hcase⟩ | ⟨hnone, -⟩
  · exact hcase
  · contradiction

theorem loops_of_some (h : looping word rest nest line = .ok (some (c, after))) :
    Loops rest nest line word c after := by
  rcases loops_of_ok h with ⟨c, after, ⟨rfl, rfl⟩, hcase⟩ | ⟨hnone, -⟩
  · exact hcase
  · contradiction

/-- A statement is read by its first word, which is bare. -/
theorem reads_of_read {commands : Commands} {tokens : List Token} {a : Accepted}
    (h : read commands nest line tokens = .ok a) :
    ∃ word rest, tokens = .bare word :: rest ∧ Reads commands nest line rest word a := by
  unfold read at h
  split at h
  · contradiction
  · next first rest =>
      dsimp only at h
      split at h
      · contradiction
      · next hbare =>
          have hfirst : first = .bare first.text :=
            Token.isBare_iff.mp (by simpa [Token.isBare] using hbare)
          refine ⟨first.text, rest, by rw [← hfirst], ?_⟩
          obtain ⟨plain, hs, h⟩ := ok_of_bind h
          cases plain with
          | some c =>
              obtain rfl := Except.ok.inj h
              exact .simple hs
          | none =>
              obtain ⟨block, hb, h⟩ := ok_of_bind h
              cases block with
              | some r =>
                  obtain rfl := Except.ok.inj h
                  exact .branching hs hb
              | none =>
                  obtain ⟨loop, hl, h⟩ := ok_of_bind h
                  cases loop with
                  | some r =>
                      obtain rfl := Except.ok.inj h
                      exact .looping hs hb hl
                  | none =>
                      dsimp only at h
                      split at h
                      · next mask hmask =>
                          obtain rfl := Except.ok.inj h
                          exact .application hs hb hl hmask
                      · contradiction

end

end Statement

end Switchboard
