import Switchboard.Proofs.Script.Argument
import Switchboard.Proofs.Script.Reader

/-!
# Switchboard.Proofs.Script.Spelling

Statements and the commands that they spell.

```
statement ::= 'set' target arg*              | 'clear' name+
            | 'var' target (size=n | arg)*   | 'expr' target assignment arg+
            | 'index' target '='? arg+       | 'goto' arg+ | 'gosub' arg+
            | 'invoke' header (name=arg)*    | 'error' arg*
            | 'repeat' arg                   | 'foreach' target arg character?
            | ('if' | 'elif' | 'case' | 'while' | 'until') chain
            | 'else' | 'endif' | 'otherwise' | 'endcase' | 'do' | 'loop'
            | 'break' | 'continue' | 'return' | 'exit'
            | word arg*
```

1. Each token of a statement spells an argument by the mark that it begins with, by a
   name in front of a `=`, or as it stands (`Argument.Spelled`).
2. `Command.Spelled` has a rule for each form of statement.  The words of the language
   are bare, and what stands behind a form is not read.
3. A statement is accepted only as a command that it spells (`spelled_of_read`), and as
   no other one, except that the blocks around a `case` decide whether it opens a
   chain (`alike_of_read`).
-/

namespace Switchboard

/-! ## commands -/

namespace Command

/-- The words that are whole statements, with the commands that they spell. -/
def loneWords : List (String × Command) :=
  [("else", .otherBranch), ("endif", .endBranch), ("otherwise", .otherChoice),
    ("endcase", .endChoice), ("do", .doLoop), ("loop", .endLoop), ("break", .breakLoop),
    ("continue", .continueLoop), ("return", .leave), ("exit", .exit)]

/-- The words before a condition, with the commands that they spell with it.  A `case` may
open a chain or go on with one. -/
def guardWords : List (String × (Condition → Command)) :=
  [("if", .branch), ("elif", .elseBranch), ("case", (.choice · true)), ("case", (.choice · false)),
    ("while", .whileLoop), ("until", .untilLoop)]

/-- The tokens spell a command. -/
inductive Spelled (commands : Commands) : Command → List Token → Prop
  | set {t : Token} {args : List Token} {name : String} {values : List Argument} :
      t.Target name → List.Forall₂ Argument.Spelled args values →
      Spelled commands (.set name values) (.bare "set" :: t :: args)
  | clear {ts : List Token} {names : List String} : ts ≠ [] → List.Forall₂ Token.Names ts names →
      Spelled commands (.clear names) (.bare "clear" :: ts)
  | declare {t : Token} {args : List Token} {name : String} {size : Option Nat}
      {all values : List Argument} : t.Target name → List.Forall₂ Argument.Spelled args all →
      Argument.Sized all size values →
      Spelled commands (.declare name size values) (.bare "var" :: t :: args)
  | expr {t : Token} {args : List Token} {name sign : String} {op : Decimal.Assignment}
      {values : List Argument} : t.Target name → op.Sign sign → args ≠ [] →
      List.Forall₂ Argument.Spelled args values →
      Spelled commands (.expr name op values) (.bare "expr" :: t :: .bare sign :: args)
  | index {t : Token} {args : List Token} {name : String} {values : List Argument} :
      t.Target name → args ≠ [] → args.head? ≠ some (.bare "=") →
      List.Forall₂ Argument.Spelled args values →
      Spelled commands (.index name values) (.bare "index" :: t :: args)
  | indexSign {t : Token} {args : List Token} {name : String} {values : List Argument} :
      t.Target name → args ≠ [] → List.Forall₂ Argument.Spelled args values →
      Spelled commands (.index name values) (.bare "index" :: t :: .bare "=" :: args)
  | goto {args : List Token} {values : List Argument} : args ≠ [] →
      List.Forall₂ Argument.Spelled args values →
      Spelled commands (.goto values) (.bare "goto" :: args)
  | gosub {args : List Token} {values : List Argument} : args ≠ [] →
      List.Forall₂ Argument.Spelled args values →
      Spelled commands (.gosub values) (.bare "gosub" :: args)
  | invoke {t : Token} {args : List Token} {name : String} {bound : List (String × Argument)} :
      t.quoted = false → t.Calls name →
      List.Forall₂ (fun t b => Argument.Spelled t (.keyword b.1 b.2)) args bound →
      Spelled commands (.invoke name bound) (.bare "invoke" :: t :: args)
  | raise {args : List Token} {values : List Argument} : List.Forall₂ Argument.Spelled args values →
      Spelled commands (.raise values) (.bare "error" :: args)
  | repeatLoop {t : Token} {count : Argument} (extra : List Token) : Argument.Spelled t count →
      Spelled commands (.repeatLoop count) (.bare "repeat" :: t :: extra)
  | eachLoop {t items : Token} {separator : List Token} {name : String} {list : Argument}
      {c : Char} : t.Target name → Argument.Spelled items list → Token.Separates separator c →
      Spelled commands (.eachLoop name list c) (.bare "foreach" :: t :: items :: separator)
  | guarded {word : String} {command : Condition → Command} {ts : List Token} {cond : Condition}
      {f : Condition.Formula} : (word, command) ∈ guardWords → Condition.Chain ts cond f →
      Spelled commands (command cond) (.bare word :: ts)
  | lone {word : String} {command : Command} (extra : List Token) : (word, command) ∈ loneWords →
      Spelled commands command (.bare word :: extra)
  | application {word : String} {mask : Mask} {args : List Token} {values : List Argument} :
      word ∉ keywords → commands.mask? word = some mask →
      List.Forall₂ Argument.Spelled args values →
      Spelled commands (.application word values) (.bare word :: args)

/-- Commands that differ at most in whether a `case` opens its chain. -/
def Alike (c d : Command) : Prop :=
  c = d ∨ ∃ cond first first', c = .choice cond first ∧ d = .choice cond first'

/-- A `case` is spelled alike where it opens a chain and where it goes on with one. -/
theorem Spelled.alike {commands : Commands} {c d : Command} {ts : List Token}
    (h : c.Spelled commands ts) (hd : c.Alike d) : d.Spelled commands ts := by
  rcases hd with rfl | ⟨cond, first, first', hc, rfl⟩
  · exact h
  · cases h with
    | @guarded word command ts cond' f hword hchain =>
        simp only [guardWords, List.mem_cons, Prod.mk.injEq, List.not_mem_nil, or_false] at hword
        have hcase (first : Bool) : ("case", (choice · first)) ∈ guardWords := by
          cases first <;> simp [guardWords]
        rcases hword with ⟨rfl, rfl⟩ | ⟨rfl, rfl⟩ | ⟨rfl, rfl⟩ | ⟨rfl, rfl⟩ |
          ⟨rfl, rfl⟩ | ⟨rfl, rfl⟩
        · contradiction
        · contradiction
        · obtain ⟨rfl, -⟩ := choice.inj hc
          exact .guarded (hcase first') hchain
        · obtain ⟨rfl, -⟩ := choice.inj hc
          exact .guarded (hcase first') hchain
        · contradiction
        · contradiction
    | @lone word command extra hword =>
        rw [hc] at hword
        simp [loneWords] at hword
    | _ => contradiction

end Command

namespace Statement

variable {commands : Commands} {nest after : Nest} {line : UInt32} {word : String}
  {rest tokens : List Token} {c : Command} {a : Accepted}

/-! ### what is read is spelled -/

/-- A plain command is spelled by the words it was read from. -/
theorem spelled_of_simple (h : simple word rest = .ok (some c)) :
    c.Spelled commands (.bare word :: rest) := by
  have hargs {ts : List Token} : List.Forall₂ Argument.Spelled ts (arguments ts) :=
    Argument.spelled_arguments_iff.mpr rfl
  cases simple_of_some h with
  | set htarget =>
      obtain ⟨t, args, rfl, ht⟩ := target_eq_ok_iff.mp htarget
      exact .set ht hargs
  | clear hne => exact .clear hne (Token.names_all_iff.mpr rfl)
  | declare htarget hsized =>
      obtain ⟨t, args, rfl, ht⟩ := target_eq_ok_iff.mp htarget
      obtain ⟨size, hall, rfl⟩ := sized_eq_ok_iff.mp hsized
      rw [Option.or_none]
      exact .declare ht hargs hall
  | @expr t op args name assignment hrest htarget hquoted hop hne =>
      subst hrest
      obtain ⟨t, _, ⟨rfl, rfl⟩, ht⟩ := target_eq_ok_iff.mp htarget
      obtain ⟨sign, rfl⟩ : ∃ sign, op = .bare sign :=
        ⟨op.text, Token.isBare_iff.mp (by simp [Token.isBare, hquoted])⟩
      exact .expr ht (assignment_eq_some_iff.mp hop) hne hargs
  | index htarget htail hne =>
      obtain ⟨t, args, rfl, ht⟩ := target_eq_ok_iff.mp htarget
      rcases htail with rfl | ⟨rfl, hhead⟩
      · exact .indexSign ht hne hargs
      · exact .index ht hne hhead hargs
  | goto hne => exact .goto hne hargs
  | gosub hne => exact .gosub hne hargs
  | invoke hrest hquoted hbound =>
      subst hrest
      exact .invoke hquoted (calls_iff.mpr rfl) (bindings_eq_ok_iff.mp hbound)
  | leave => exact .lone rest (by simp [Command.loneWords])
  | exit => exact .lone rest (by simp [Command.loneWords])
  | raise => exact .raise hargs

/-- So is a command of a chain. -/
theorem spelled_of_branching (h : branching word rest nest line = .ok (some (c, after))) :
    c.Spelled commands (.bare word :: rest) := by
  have hchain {cond : Condition} (hcond : Condition.ofTokens rest = .ok cond) :
      ∃ f, Condition.Chain rest cond f := Condition.ofTokens_eq_ok_iff.mp hcond
  cases branches_of_some h with
  | branch hcond =>
      obtain ⟨f, hf⟩ := hchain hcond
      have hword : ("if", Command.branch) ∈ Command.guardWords := by
        simp [Command.guardWords]
      exact .guarded hword hf
  | elseBranch _ hcond =>
      obtain ⟨f, hf⟩ := hchain hcond
      have hword : ("elif", Command.elseBranch) ∈ Command.guardWords := by
        simp [Command.guardWords]
      exact .guarded hword hf
  | otherBranch _ => exact .lone rest (by simp [Command.loneWords])
  | endBranch _ => exact .lone rest (by simp [Command.loneWords])
  | nextChoice _ hcond =>
      obtain ⟨f, hf⟩ := hchain hcond
      have hword : ("case", (Command.choice · false)) ∈ Command.guardWords := by
        simp [Command.guardWords]
      exact .guarded hword hf
  | choice _ hcond =>
      obtain ⟨f, hf⟩ := hchain hcond
      have hword : ("case", (Command.choice · true)) ∈ Command.guardWords := by
        simp [Command.guardWords]
      exact .guarded hword hf
  | otherChoice _ => exact .lone rest (by simp [Command.loneWords])
  | endChoice _ => exact .lone rest (by simp [Command.loneWords])

/-- So is a command of a loop. -/
theorem spelled_of_looping (h : looping word rest nest line = .ok (some (c, after))) :
    c.Spelled commands (.bare word :: rest) := by
  have hchain {cond : Condition} (hcond : Condition.ofTokens rest = .ok cond) :
      ∃ f, Condition.Chain rest cond f := Condition.ofTokens_eq_ok_iff.mp hcond
  cases loops_of_some h with
  | doLoop => exact .lone rest (by simp [Command.loneWords])
  | whileLoop hcond =>
      obtain ⟨f, hf⟩ := hchain hcond
      have hword : ("while", Command.whileLoop) ∈ Command.guardWords := by
        simp [Command.guardWords]
      exact .guarded hword hf
  | @repeatLoop count extra hrest =>
      subst hrest
      exact .repeatLoop extra (Argument.spelled_iff.mpr rfl)
  | @eachLoop name items extra d htarget htail hd =>
      obtain ⟨t, args, rfl, ht⟩ := target_eq_ok_iff.mp htarget
      obtain rfl : args = items :: extra := htail
      exact .eachLoop ht (Argument.spelled_iff.mpr rfl) (delimiter_eq_ok_iff.mp hd)
  | endLoop _ => exact .lone rest (by simp [Command.loneWords])
  | untilLoop _ hcond =>
      obtain ⟨f, hf⟩ := hchain hcond
      have hword : ("until", Command.untilLoop) ∈ Command.guardWords := by
        simp [Command.guardWords]
      exact .guarded hword hf
  | breakLoop _ => exact .lone rest (by simp [Command.loneWords])
  | continueLoop _ => exact .lone rest (by simp [Command.loneWords])

/-- A word that no reader of the language knows is none of its words. -/
theorem not_keyword_of_none (hs : simple word rest = .ok none)
    (hb : branching word rest nest line = .ok none)
    (hl : looping word rest nest line = .ok none) : word ∉ keywords := by
  obtain ⟨_, ⟨⟩, -⟩ | ⟨-, hsimple⟩ := simple_of_ok hs
  obtain ⟨_, _, ⟨⟩, -⟩ | ⟨-, hbranching⟩ := branches_of_ok hb
  obtain ⟨_, _, ⟨⟩, -⟩ | ⟨-, hlooping⟩ := loops_of_ok hl
  have hwords : ∀ w ∈ keywords, w ∈ simpleWords ++ branchingWords ++ loopingWords := by decide
  intro hword
  simpa [hsimple, hbranching, hlooping] using hwords word hword

/-- A statement is accepted only as a command that it spells. -/
theorem spelled_of_read (h : read commands nest line tokens = .ok a) :
    a.command.Spelled commands tokens := by
  obtain ⟨word, rest, rfl, hreads⟩ := reads_of_read h
  cases hreads with
  | simple hs => exact spelled_of_simple hs
  | branching _ hb => exact spelled_of_branching hb
  | looping _ _ hl => exact spelled_of_looping hl
  | application hs hb hl hmask =>
      exact .application (not_keyword_of_none hs hb hl) hmask
        (Argument.spelled_arguments_iff.mpr rfl)

/-! ### what is spelled is read -/

/-- Statements that leave the blocks alone are read wherever they stand. -/
theorem Simple.read (h : Simple rest word c) : simple word rest = .ok (some c) := by
  cases h with
  | set htarget => simp [simple, htarget, bind, Except.bind, pure, Except.pure]
  | clear hne => simp [simple, hne]
  | declare htarget hsized =>
      simp [simple, htarget, hsized, bind, Except.bind, pure, Except.pure]
  | expr hrest htarget hquoted hop hne =>
      subst hrest
      simp [simple, htarget, hquoted, hop, hne, bind, Except.bind]
  | @index name expression htarget htail hne =>
      rcases htail with htail | ⟨htail, hhead⟩
      · simp [simple, htarget, htail, hne, Token.isBare_iff, bind, Except.bind]
      · obtain ⟨t, others, rfl⟩ := List.exists_cons_of_ne_nil hne
        have ht : t ≠ .bare "=" := by simpa using hhead
        simp [simple, htarget, htail, ht, Token.isBare_iff, bind, Except.bind]
  | goto hne => simp [simple, hne]
  | gosub hne => simp [simple, hne]
  | invoke hrest hquoted hbound =>
      subst hrest
      simp [simple, hquoted, hbound, Except.map]
  | leave => rfl
  | exit => rfl
  | raise => rfl

/-- Statements that begin, end or leave a loop are read so in their place. -/
theorem Loops.read (h : Loops rest nest line word c after) :
    looping word rest nest line = .ok (some (c, after)) := by
  cases h with
  | doLoop => rfl
  | whileLoop hcond => simp [looping, hcond, bind, Except.bind, pure, Except.pure]
  | repeatLoop hrest =>
      subst hrest
      rfl
  | eachLoop htarget htail hc =>
      simp [looping, htarget, htail, hc, bind, Except.bind, pure, Except.pure]
  | endLoop hinner => simp [looping, hinner]
  | untilLoop hinner hcond => simp [looping, hinner, hcond, bind, Except.bind, pure, Except.pure]
  | breakLoop hinside => simp [looping, hinside]
  | continueLoop hinside => simp [looping, hinside]

/-- A plain command begins with a keyword. -/
theorem Simple.keyword (h : Simple rest word c) : word ∈ keywords := by
  cases h <;> decide

/-- So does a command of a chain. -/
theorem Branches.keyword (h : Branches rest nest line word c after) : word ∈ keywords := by
  cases h <;> decide

/-- So does a command of a loop. -/
theorem Loops.keyword (h : Loops rest nest line word c after) : word ∈ keywords := by
  cases h <;> decide

/-- A word that is a whole statement is read as its command. -/
theorem Simple.lone {d : Command} (h : Simple rest word c) (hword : (word, d) ∈ Command.loneWords) :
    c = d := by
  cases h with
  | leave => simpa [Command.loneWords, eq_comm] using hword
  | exit => simpa [Command.loneWords, eq_comm] using hword
  | _ => simp [Command.loneWords] at hword

/-- A word that stands alone in a chain is read as its command. -/
theorem Branches.lone {d : Command} (h : Branches rest nest line word c after)
    (hword : (word, d) ∈ Command.loneWords) : c = d := by
  cases h with
  | otherBranch _ => simpa [Command.loneWords, eq_comm] using hword
  | endBranch _ => simpa [Command.loneWords, eq_comm] using hword
  | otherChoice _ => simpa [Command.loneWords, eq_comm] using hword
  | endChoice _ => simpa [Command.loneWords, eq_comm] using hword
  | _ => simp [Command.loneWords] at hword

/-- So is one in a loop. -/
theorem Loops.lone {d : Command} (h : Loops rest nest line word c after)
    (hword : (word, d) ∈ Command.loneWords) : c = d := by
  cases h with
  | doLoop => simpa [Command.loneWords, eq_comm] using hword
  | endLoop _ => simpa [Command.loneWords, eq_comm] using hword
  | breakLoop _ => simpa [Command.loneWords, eq_comm] using hword
  | continueLoop _ => simpa [Command.loneWords, eq_comm] using hword
  | _ => simp [Command.loneWords] at hword

/-- No plain command begins with a word that a condition follows. -/
theorem Simple.not_guard {f : Condition → Command} (h : Simple rest word c) :
    (word, f) ∉ Command.guardWords := by
  cases h <;> simp [Command.guardWords]

/-- A word before a condition is read as its command, where a `case` may open a chain or go
on with one. -/
theorem Branches.guarded {f : Condition → Command} {cond : Condition}
    (h : Branches rest nest line word c after) (hword : (word, f) ∈ Command.guardWords)
    (hcond : Condition.ofTokens rest = .ok cond) : c.Alike (f cond) := by
  have hsame {cond' : Condition} (hcond' : Condition.ofTokens rest = .ok cond') : cond' = cond :=
    Except.ok.inj (hcond'.symm.trans hcond)
  have hchoice (first : Bool) (hf : f = (.choice · true) ∨ f = (.choice · false)) :
      (Command.choice cond first).Alike (f cond) := by
    rcases hf with rfl | rfl
    · exact .inr ⟨cond, first, true, rfl, rfl⟩
    · exact .inr ⟨cond, first, false, rfl, rfl⟩
  cases h with
  | branch hc =>
      obtain rfl : f = .branch := by simpa [Command.guardWords] using hword
      exact .inl (by rw [hsame hc])
  | elseBranch _ hc =>
      obtain rfl : f = .elseBranch := by simpa [Command.guardWords] using hword
      exact .inl (by rw [hsame hc])
  | nextChoice _ hc =>
      rw [hsame hc]
      exact hchoice false (by simpa [Command.guardWords] using hword)
  | choice _ hc =>
      rw [hsame hc]
      exact hchoice true (by simpa [Command.guardWords] using hword)
  | _ => simp [Command.guardWords] at hword

/-- A loop with a condition is read with that condition. -/
theorem Loops.guarded {f : Condition → Command} {cond : Condition}
    (h : Loops rest nest line word c after) (hword : (word, f) ∈ Command.guardWords)
    (hcond : Condition.ofTokens rest = .ok cond) : c = f cond := by
  cases h with
  | whileLoop hc =>
      obtain rfl : f = .whileLoop := by simpa [Command.guardWords] using hword
      rw [Except.ok.inj (hc.symm.trans hcond)]
  | untilLoop _ hc =>
      obtain rfl : f = .untilLoop := by simpa [Command.guardWords] using hword
      rw [Except.ok.inj (hc.symm.trans hcond)]
  | _ => simp [Command.guardWords] at hword

section
variable (h : Reads commands nest line rest word a)
include h

/-- A plain command is read back alike. -/
theorem alike_of_simple (hs : Simple rest word c) : a.command.Alike c := by
  cases h with
  | simple hs' =>
      obtain rfl := Option.some.inj (Except.ok.inj (hs.read.symm.trans hs'))
      exact .inl rfl
  | branching hnone _ => exact nomatch hs.read.symm.trans hnone
  | looping hnone _ _ => exact nomatch hs.read.symm.trans hnone
  | application hnone _ _ _ => exact nomatch hs.read.symm.trans hnone

/-- A command of a loop is read back as it is. -/
theorem command_of_looping (hs : simple word rest = .ok none)
    (hb : branching word rest nest line = .ok none) (hl : Loops rest nest line word c after) :
    a.command = c := by
  cases h with
  | simple hs' => exact nomatch hs.symm.trans hs'
  | branching _ hb' => exact nomatch hb.symm.trans hb'
  | looping _ _ hl' =>
      have hsame := Except.ok.inj (hl.read.symm.trans hl')
      exact (Prod.mk.inj (Option.some.inj hsame)).1.symm
  | application _ _ hnone _ => exact nomatch hl.read.symm.trans hnone

/-- So is a word that stands alone. -/
theorem alike_of_lone (hword : (word, c) ∈ Command.loneWords) : a.command.Alike c := by
  cases h with
  | simple hs => exact .inl ((simple_of_some hs).lone hword)
  | branching _ hb => exact .inl ((branches_of_some hb).lone hword)
  | looping _ _ hl => exact .inl ((loops_of_some hl).lone hword)
  | application hs hb hl _ =>
      have hall : ∀ w ∈ Command.loneWords, w.1 ∈ keywords := by decide
      exact absurd (hall _ hword) (not_keyword_of_none hs hb hl)

/-- So is a word with a condition. -/
theorem alike_of_guarded {f : Condition → Command} {cond : Condition}
    (hword : (word, f) ∈ Command.guardWords) (hcond : Condition.ofTokens rest = .ok cond) :
    a.command.Alike (f cond) := by
  cases h with
  | simple hs => exact absurd hword (simple_of_some hs).not_guard
  | branching _ hb => exact (branches_of_some hb).guarded hword hcond
  | looping _ _ hl => exact .inl ((loops_of_some hl).guarded hword hcond)
  | application hs hb hl _ =>
      have hall : ∀ w ∈ Command.guardWords.map Prod.fst, w ∈ keywords := by decide
      exact absurd (hall _ (List.mem_map_of_mem hword)) (not_keyword_of_none hs hb hl)

/-- A word that is no keyword is read back as a command of the host. -/
theorem alike_of_application (hword : word ∉ keywords) :
    a.command.Alike (.application word (arguments rest)) := by
  cases h with
  | simple hs => exact absurd (simple_of_some hs).keyword hword
  | branching _ hb => exact absurd (branches_of_some hb).keyword hword
  | looping _ _ hl => exact absurd (loops_of_some hl).keyword hword
  | application _ _ _ _ => exact .inl rfl

end

/-- A statement that spells a command is accepted as no other one. -/
theorem alike_of_read (hc : c.Spelled commands tokens)
    (h : read commands nest line tokens = .ok a) : a.command.Alike c := by
  obtain ⟨word, rest, htokens, hreads⟩ := reads_of_read h
  cases hc with
  | @set t args name values ht hargs =>
      obtain ⟨⟨⟩, rfl⟩ := List.cons.inj htokens
      obtain rfl := Argument.spelled_arguments_iff.mp hargs
      exact alike_of_simple hreads (.set (target_eq_ok_iff.mpr ⟨t, args, rfl, ht⟩))
  | clear hne hnames =>
      obtain ⟨⟨⟩, rfl⟩ := List.cons.inj htokens
      obtain rfl := Token.names_all_iff.mp hnames
      exact alike_of_simple hreads (.clear hne)
  | @declare t args name size all values ht hargs hsized =>
      obtain ⟨⟨⟩, rfl⟩ := List.cons.inj htokens
      obtain rfl := Argument.spelled_arguments_iff.mp hargs
      have hsized' : sized none (arguments args) = .ok (size, values) :=
        sized_eq_ok_iff.mpr ⟨size, hsized, Option.or_none.symm⟩
      exact alike_of_simple hreads (.declare (target_eq_ok_iff.mpr ⟨t, args, rfl, ht⟩) hsized')
  | @expr t args name sign op values ht hsign hne hargs =>
      obtain ⟨⟨⟩, rfl⟩ := List.cons.inj htokens
      obtain rfl := Argument.spelled_arguments_iff.mp hargs
      exact alike_of_simple hreads (.expr rfl (target_eq_ok_iff.mpr ⟨t, _, rfl, ht⟩) rfl
        (assignment_eq_some_iff.mpr hsign) hne)
  | @index t args name values ht hne hhead hargs =>
      obtain ⟨⟨⟩, rfl⟩ := List.cons.inj htokens
      obtain rfl := Argument.spelled_arguments_iff.mp hargs
      exact alike_of_simple hreads
        (.index (target_eq_ok_iff.mpr ⟨t, args, rfl, ht⟩) (.inr ⟨rfl, hhead⟩) hne)
  | @indexSign t args name values ht hne hargs =>
      obtain ⟨⟨⟩, rfl⟩ := List.cons.inj htokens
      obtain rfl := Argument.spelled_arguments_iff.mp hargs
      exact alike_of_simple hreads
        (.index (target_eq_ok_iff.mpr ⟨t, _, rfl, ht⟩) (.inl rfl) hne)
  | goto hne hargs =>
      obtain ⟨⟨⟩, rfl⟩ := List.cons.inj htokens
      obtain rfl := Argument.spelled_arguments_iff.mp hargs
      exact alike_of_simple hreads (.goto hne)
  | gosub hne hargs =>
      obtain ⟨⟨⟩, rfl⟩ := List.cons.inj htokens
      obtain rfl := Argument.spelled_arguments_iff.mp hargs
      exact alike_of_simple hreads (.gosub hne)
  | invoke hquoted hcalls hbound =>
      obtain ⟨⟨⟩, rfl⟩ := List.cons.inj htokens
      obtain rfl := calls_iff.mp hcalls
      exact alike_of_simple hreads (.invoke rfl hquoted (bindings_eq_ok_iff.mpr hbound))
  | raise hargs =>
      obtain ⟨⟨⟩, rfl⟩ := List.cons.inj htokens
      obtain rfl := Argument.spelled_arguments_iff.mp hargs
      exact alike_of_simple hreads .raise
  | repeatLoop extra hcount =>
      obtain ⟨⟨⟩, rfl⟩ := List.cons.inj htokens
      obtain rfl := Argument.spelled_iff.mp hcount
      exact .inl (command_of_looping hreads rfl rfl (.repeatLoop rfl))
  | @eachLoop t items extra name list c ht hitems hseparates =>
      obtain ⟨⟨⟩, rfl⟩ := List.cons.inj htokens
      obtain rfl := Argument.spelled_iff.mp hitems
      exact .inl (command_of_looping hreads rfl rfl
        (.eachLoop (target_eq_ok_iff.mpr ⟨t, _, rfl, ht⟩) rfl (delimiter_eq_ok_iff.mpr hseparates)))
  | guarded hword hchain =>
      obtain ⟨⟨⟩, rfl⟩ := List.cons.inj htokens
      exact alike_of_guarded hreads hword (Condition.ofTokens_eq_ok_iff.mpr ⟨_, hchain⟩)
  | lone extra hword =>
      obtain ⟨⟨⟩, rfl⟩ := List.cons.inj htokens
      exact alike_of_lone hreads hword
  | application hword _ hargs =>
      obtain ⟨⟨⟩, rfl⟩ := List.cons.inj htokens
      obtain rfl := Argument.spelled_arguments_iff.mp hargs
      exact alike_of_application hreads hword

end Statement

end Switchboard
