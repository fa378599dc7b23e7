import Switchboard.Proofs.Interpreter.Invocation
import Switchboard.Proofs.Interpreter.Passes

/-!
# Switchboard.Proofs.Interpreter.Builtin

The symbols that every script can read.

1. `%index`, `%error` and `%depth` are shown unless a symbol of the same name is seen
   where the script stands (`value_builtin`).
2. A symbol is seen only if its name was given a value: by a line of the script that
   names it (`Symbols.Written`), or from outside.  `Named` keeps these names along every sequence of
   operations, and a line that is not at fault makes what it names seen.
3. The test for the empty text does not know the built-in symbols: it takes one that
   nothing hides for empty, whatever its text is (`emptyAgrees_iff`).
-/

namespace Switchboard

/-! ## the names of symbols -/

namespace Symbols

/-- All symbols have names of the list. -/
def NamedIn (s : Symbols) (names : List String) : Prop := ∀ e ∈ s.entries, e.name ∈ names

section
variable {s t : Symbols} {names : List String} {scope : Scope} {name value : String}

/-- Names among some are among more. -/
theorem NamedIn.mono {others : List String} (h : s.NamedIn names)
    (hsub : ∀ x ∈ names, x ∈ others) : s.NamedIn others := fun e he => hsub _ (h e he)

/-- A change of a symbol that keeps its name adds no name. -/
theorem NamedIn.modify (h : s.NamedIn names) (scope : Scope) (name : String)
    {f : Symbol → Symbol} (hf : ∀ e, (f e).name = e.name) :
    (s.modify scope name f).NamedIn names := by
  intro e he
  obtain ⟨e', he', rfl⟩ := List.mem_map.mp he
  split
  · rw [hf]
    exact h e' he'
  · exact h e' he'

/-- A declaration adds its own name, and no other. -/
theorem NamedIn.define (h : s.NamedIn names) (hname : name ∈ names) {size : Option Nat}
    (ht : s.define scope name size = .ok t) : t.NamedIn names := by
  unfold Symbols.define create at ht
  split at ht
  · obtain rfl := Except.ok.inj ht
    exact h
  · split at ht
    · contradiction
    · obtain rfl := Except.ok.inj ht
      intro e he
      obtain he | he := List.mem_append.mp he
      · exact h e he
      · obtain rfl := List.mem_singleton.mp he
        exact hname

/-- So does an assignment in a scope. -/
theorem NamedIn.assignScoped (h : s.NamedIn names) (hname : name ∈ names)
    (ht : s.assignScoped scope name value = .ok t) : t.NamedIn names := by
  unfold Symbols.assignScoped Except.map at ht
  split at ht
  · contradiction
  · next u hu =>
      obtain rfl := Except.ok.inj ht
      exact (h.define hname hu).modify scope name fun _ => rfl

/-- So does an assignment in the scope of the script. -/
theorem NamedIn.assign (h : s.NamedIn names) (hname : name ∈ names)
    (ht : s.assign scope name value = .ok t) : t.NamedIn names := by
  have hscoped : s.assignScoped (s.owner scope name) name value = .ok t := ht
  exact h.assignScoped hname hscoped

/-- Symbols that are cleared add no name. -/
theorem NamedIn.clear (h : s.NamedIn names) (scope : Scope) (targets : List String) :
    (targets.foldl (fun t name => t.clear scope name) s).NamedIn names := by
  induction targets generalizing s with
  | nil => exact h
  | cons name rest ih => exact ih (h.modify _ name fun _ => rfl)

/-- What is seen is there. -/
theorem NamedIn.mem_of_lookup? (h : s.NamedIn names) (hl : (s.lookup? scope name).isSome) :
    name ∈ names := by
  obtain ⟨e, he⟩ := Option.isSome_iff_exists.mp hl
  have hkey := key_of_declared? he
  have hmem : e.name ∈ names := h e (List.mem_of_find?_eq_some he)
  rwa [(Prod.mk.inj hkey).2] at hmem

end

/-! ### symbols that are written -/

/-- What is declared has a value. -/
theorem isSome_lookup?_of_declared? {s : Symbols} {scope : Scope} {name : String}
    (h : (s.declared? scope name).isSome) : (s.lookup? scope name).isSome := by
  rwa [lookup?, owner, if_pos h]

/-- What has been assigned has a value. -/
theorem isSome_lookup?_of_assign {s t : Symbols} {scope : Scope} {name text : String}
    (h : s.assign scope name text = .ok t) : (t.lookup? scope name).isSome := by
  obtain ⟨e, he, -⟩ := lookup?_of_assign h
  rw [he, Option.isSome_some]

/-- An argument that was given is declared in the header that got it. -/
theorem isSome_given {s : Symbols} {scope : Scope} {args : List (String × String)}
    {name : String} (h : name ∈ args.map Prod.fst) :
    (s.given scope args (scope, name)).isSome := by
  obtain ⟨⟨name, text⟩, hmem, rfl⟩ := List.mem_map.mp h
  have hlast : (args.reverse.lookup name).isSome :=
    List.lookup_isSome_iff.mpr ⟨_, List.mem_reverse.mpr hmem, beq_self_eq_true _⟩
  obtain ⟨last, hlast⟩ := Option.isSome_iff_exists.mp hlast
  simp [given, hlast]

/-- What has been defined is declared. -/
theorem isSome_define {s t : Symbols} {scope : Scope} {name : String} {size : Option Nat}
    (h : s.define scope name size = .ok t) : (t.declared? scope name).isSome := by
  unfold Symbols.define create at h
  split at h
  · next hthere =>
      obtain rfl := Except.ok.inj h
      exact hthere
  · split at h
    · contradiction
    · obtain rfl := Except.ok.inj h
      rw [declared?_append s _ (scope, name)]
      simp [Arena.key]

/-- How a line that changes symbols, and does nothing else, gives values to the names of a
list. -/
inductive Written (s : Symbols) (scope : Scope) : List String → Symbols → Prop
  | cleared (names : List String) :
      Written s scope [] (names.foldl (fun t name => t.clear scope name) s)
  | held {name : String} : (s.lookup? scope name).isSome → Written s scope [name] s
  | assigned {name text : String} {t : Symbols} : s.assign scope name text = .ok t →
      Written s scope [name] t
  | defined {name : String} {size : Option Nat} {t : Symbols} :
      s.define scope name size = .ok t → Written s scope [name] t
  | declared {name text : String} {size : Option Nat} {t u : Symbols} :
      s.define scope name size = .ok t → t.assignScoped scope name text = .ok u →
      Written s scope [name] u

/-- No other names are given values. -/
theorem NamedIn.written {s t : Symbols} {scope : Scope} {targets names : List String}
    (h : s.NamedIn names) (hw : Written s scope targets t) (hsub : ∀ x ∈ targets, x ∈ names) :
    t.NamedIn names := by
  cases hw with
  | cleared others => exact h.clear scope others
  | held => exact h
  | assigned ht => exact h.assign (hsub _ (.head _)) ht
  | defined ht => exact h.define (hsub _ (.head _)) ht
  | declared ht hu =>
      have hname := hsub _ (.head _)
      exact (h.define hname ht).assignScoped hname hu

/-- All of them are seen then. -/
theorem Written.isSome_lookup? {s t : Symbols} {scope : Scope} {targets : List String}
    {x : String} (hw : Written s scope targets t) (hx : x ∈ targets) :
    (t.lookup? scope x).isSome := by
  cases hw with
  | cleared => contradiction
  | held hs =>
      obtain rfl := List.mem_singleton.mp hx
      exact hs
  | assigned ht =>
      obtain rfl := List.mem_singleton.mp hx
      exact isSome_lookup?_of_assign ht
  | defined ht =>
      obtain rfl := List.mem_singleton.mp hx
      exact isSome_lookup?_of_declared? (isSome_define ht)
  | declared _ hu =>
      obtain rfl := List.mem_singleton.mp hx
      refine isSome_lookup?_of_declared? ?_
      rw [given_of_assignScoped hu (scope, x)]
      exact isSome_given (.head _)

end Symbols

/-! ## the names that a line gives values -/

/-- The names that a command gives values. -/
def Command.targets : Command → List String
  | .set target _ | .declare target _ _ | .expr target _ _ | .index target _
  | .eachLoop target _ _ => [target]
  | .invoke _ args => args.map Prod.fst
  | _ => []

namespace Interpreter

/-- The names that the current line of a script gives values. -/
def targets (s : Interpreter) : List String := (s.command?.map Command.targets).getD []

variable {s t : Interpreter} {names : List String}

/-- An expression is assigned, unless a text that is seen stays. -/
theorem written_expressed {target : String} {op : Decimal.Assignment}
    {expression : List Argument} {decimals : Nat} {symbols : Symbols}
    (h : s.expressed target op expression decimals = .ok symbols) :
    s.symbols.Written s.scope [target] symbols := by
  unfold expressed at h
  dsimp only at h
  split at h
  · next hheld =>
      obtain rfl := Except.ok.inj h
      have hsome : (s.symbol? target).isSome := by
        cases hs : s.symbol? target with
        | none => simp [hs] at hheld
        | some text => rfl
      rw [symbol?, Option.isSome_map] at hsome
      exact .held hsome
  · obtain ⟨_, -, h⟩ := ok_of_bind h
    obtain ⟨_, -, h⟩ := ok_of_bind h
    obtain ⟨_, -, h⟩ := ok_of_bind h
    exact .assigned h

/-- A command that does nothing else gives values to what it names. -/
theorem written_update? {command : Command} {symbols : Symbols}
    (h : s.update? command = some (.ok symbols)) :
    s.symbols.Written s.scope command.targets symbols := by
  cases command with
  | set target args =>
      obtain ⟨text, -, h⟩ := ok_of_bind (Option.some.inj h)
      exact .assigned h
  | clear targets =>
      obtain rfl := Except.ok.inj (Option.some.inj h)
      exact .cleared targets
  | declare name size args =>
      obtain ⟨text, -, h⟩ := ok_of_bind (Option.some.inj h)
      obtain ⟨defined, hd, h⟩ := ok_of_bind h
      split at h
      · obtain rfl := Except.ok.inj h
        exact .defined hd
      · exact .declared hd h
  | expr target op expression | index target expression =>
      exact written_expressed (Option.some.inj h)
  | _ => contradiction

/-- What a line leaves has no names but these. -/
def Outcome.NamedIn (names : List String) : Outcome → Prop
  | .next t | .pause t | .fault _ t => t.symbols.NamedIn names
  | .ask _ _ => True

namespace Outcome.NamedIn

/-- A trial adds only the names that what comes after it adds. -/
theorem attempt {α : Type} {r : Except Fault α} {k : α → Outcome} (hs : s.symbols.NamedIn names)
    (h : ∀ a, r = .ok a → (k a).NamedIn names) : (Interpreter.attempt s r k).NamedIn names := by
  cases r with
  | ok a => exact h a rfl
  | error cause => exact hs

/-- A change of the innermost frame adds no name. -/
theorem modifyTop (hs : s.symbols.NamedIn names) (change : Frame → Frame) :
    (s.modifyTop change).symbols.NamedIn names := symbols_modifyTop s change ▸ hs

/-- A loop that is broken off adds no name. -/
theorem breakLoop (hs : s.symbols.NamedIn names) (header : Header) :
    (s.breakLoop header).NamedIn names := by
  unfold Interpreter.breakLoop
  split
  · exact hs
  · exact modifyTop (s := s.pop) hs _

/-- A loop that goes on adds no name. -/
theorem continueLoop (hs : s.symbols.NamedIn names) (command : String) :
    (s.continueLoop command).NamedIn names := by
  unfold Interpreter.continueLoop
  split
  · exact hs
  · exact modifyTop hs _

/-- A pass through a loop adds no name. -/
theorem passIf (hs : s.symbols.NamedIn names) (header : Header) (due : Bool) :
    (s.passIf header due).NamedIn names := by
  cases due with
  | true => exact modifyTop hs _
  | false => exact breakLoop hs header

/-- A return adds no name. -/
theorem returnFrom (hs : s.symbols.NamedIn names) : s.returnFrom.NamedIn names := by
  unfold Interpreter.returnFrom
  dsimp only
  split
  · split
    · exact modifyTop (s := s.leaveLoops.pop) hs _
    · exact hs
  · exact hs

/-- Arguments add their own names. -/
theorem bindArguments (scope : Scope) {args : List (String × String)}
    (hs : s.symbols.NamedIn names) (hargs : ∀ x ∈ args.map Prod.fst, x ∈ names) :
    (s.bindArguments scope args).NamedIn names := by
  induction args generalizing s with
  | nil => exact hs
  | cons arg rest ih =>
      obtain ⟨name, text⟩ := arg
      unfold Interpreter.bindArguments
      split
      · exact hs
      · next symbols h =>
          have hsymbols := hs.assignScoped (hargs name (.head _)) h
          exact ih (s := { s with symbols }) hsymbols fun x hx => hargs x (.tail _ hx)

end Outcome.NamedIn

/-- Bound arguments have the names that the line gives them. -/
theorem names_of_bound {args : List (String × Argument)} {bound : List (String × String)}
    (h : s.bound args = .ok bound) : bound.map Prod.fst = args.map Prod.fst := by
  induction args generalizing bound with
  | nil =>
      obtain rfl := Except.ok.inj h
      rfl
  | cons arg rest ih =>
      obtain ⟨name, arg⟩ := arg
      obtain ⟨text, -, h⟩ := ok_of_bind h
      obtain ⟨others, ho, h⟩ := ok_of_bind h
      obtain rfl := Except.ok.inj h
      simp only [List.map_cons, ih ho]

/-- A line leaves the names that it found and those that it gives values. -/
theorem namedIn_executeLine (image : Image) (header : Header) (line : Nat) {c : Command}
    (hs : s.symbols.NamedIn names) (hc : ∀ x ∈ c.targets, x ∈ names) :
    (s.executeLine image header line c).NamedIn names := by
  cases hu : s.update? c with
  | some r =>
      rw [executeLine_of_update? hu]
      refine .attempt hs fun symbols hr => ?_
      exact .modifyTop (s := { s with symbols }) (hs.written (written_update? (hr ▸ hu)) hc) _
  | none =>
      cases c with
      | set | clear | declare | expr | index => contradiction
      | branch cond => exact .attempt hs fun _ _ => .modifyTop hs _
      | choice cond opens =>
          cases opens with
          | true => exact .attempt hs fun _ _ => .modifyTop hs _
          | false => exact Outcome.NamedIn.modifyTop hs _
      | elseBranch | otherBranch | otherChoice | endBranch | endChoice =>
          exact Outcome.NamedIn.modifyTop hs _
      | doLoop =>
          refine .attempt hs fun t ht => .modifyTop ?_ _
          rwa [symbols_enterLoop ht]
      | whileLoop cond | repeatLoop count =>
          refine .attempt hs fun t ht => ?_
          have hsame : t.symbols.NamedIn names := (symbols_enterLoop ht).symm ▸ hs
          exact .attempt hsame fun due _ => .passIf hsame header due
      | eachLoop target items delimiter =>
          refine .attempt hs fun t ht => ?_
          have hsame : t.symbols.NamedIn names := (symbols_enterLoop ht).symm ▸ hs
          refine .attempt hsame fun text _ => ?_
          split
          · exact .breakLoop hsame header
          · refine .attempt hsame fun symbols h => ?_
            have hsymbols := hsame.assign (hc target (.head _)) h
            exact .modifyTop (s := { t with symbols }) hsymbols _
      | endLoop | continueLoop => exact .continueLoop hs _
      | breakLoop => exact .breakLoop hs header
      | untilLoop cond =>
          refine .attempt hs fun holds _ => ?_
          split
          · split
            · exact .modifyTop (s := s.pop) hs _
            · exact hs
          · exact .continueLoop hs _
      | goto targets => exact .attempt hs fun _ _ => .modifyTop (s := s.leaveLoops) hs _
      | gosub targets =>
          refine .attempt hs fun _ _ => .attempt hs fun t ht => ?_
          have hsame : t.symbols.NamedIn names := (symbols_push ht).symm ▸ hs
          exact hsame
      | invoke target args =>
          simp only [executeLine]
          split
          · exact hs
          · refine .attempt hs fun bound hbound => .attempt hs fun t ht => ?_
            have hsame : t.symbols.NamedIn names := (symbols_push ht).symm ▸ hs
            exact .bindArguments _ hsame (names_of_bound hbound ▸ hc)
      | leave => exact .returnFrom hs
      | exit => exact hs
      | raise args => exact .attempt hs fun _ _ => hs
      | application name args => exact .attempt hs fun _ _ => trivial

/-- So does the current line, with the answer of the host. -/
theorem namedIn_outcomeWith {σ : Type} (host : Host σ) (world : σ) {image : Image}
    (hi : s.image = some image) (hs : s.symbols.NamedIn names)
    (hc : ∀ x ∈ s.targets, x ∈ names) :
    (s.outcomeWith image host world).1.NamedIn names := by
  unfold outcomeWith
  split
  · next command args _ =>
      dsimp only
      cases (host.execute command args world).1 with
      | none => exact hs
      | some action =>
          cases action with
          | proceed | suspend => exact Outcome.NamedIn.modifyTop hs _
          | exit | fail | abort => exact hs
  · unfold execute
    split
    · exact hs
    · next f hf =>
        split
        · exact hs
        · next header hheader =>
            split
            · exact .returnFrom hs
            · next l hl =>
                refine namedIn_executeLine image header f.line hs fun x hx => hc x ?_
                simpa [targets, command?, hi, hf, hheader, hl] using hx

/-- A step leaves the names that it found and those that its line gives values. -/
theorem namedIn_step {σ : Type} (host : Host σ) (world : σ) (hs : s.symbols.NamedIn names) :
    (s.step host world).state.symbols.NamedIn (s.targets ++ names) := by
  have hkept : s.symbols.NamedIn (s.targets ++ names) :=
    hs.mono fun x hx => List.mem_append_right _ hx
  cases hr : s.isRunning with
  | false => rwa [step_of_not_running host world hr]
  | true =>
      cases hi : s.image with
      | none => simpa [step, hr, hi] using hkept
      | some image =>
          have hline := namedIn_outcomeWith host world hi hkept fun x hx =>
            List.mem_append_left _ hx
          rw [step_of_running host world hr hi]
          dsimp only
          generalize (s.outcomeWith image host world).1 = o at hline
          cases o with
          | next t | pause t => exact hline
          | ask command args => exact hkept
          | fault cause t =>
              rw [symbols_settled_fault]
              exact hline

/-! ## histories -/

/-- The interpreters that operations lead to, each with the names that were given values
since it was detached last. -/
inductive Named : Interpreter → List String → Prop
  | new (limits : Limits) : Named (.new limits) []
  | attach {s : Interpreter} {names : List String} (image : Image) (entry : Option String) :
      Named s names → Named (s.attach image entry).1
        (if s.isAttached && (s.attach image entry).2 then [] else names)
  | detach {s : Interpreter} {names : List String} : Named s names → Named s.detach []
  | setSymbol {s t : Interpreter} {names : List String} {name value : String} :
      Named s names → s.setSymbol name value = .ok t → Named t (name :: names)
  | step {σ : Type} {s : Interpreter} {names : List String} (host : Host σ) (world : σ) :
      Named s names → Named (s.step host world).state (s.targets ++ names)
  | trigger {s : Interpreter} {names : List String} (event : String) :
      Named s names → Named (s.trigger event).1 names
  | error {s : Interpreter} {names : List String} (text : String) :
      Named s names → Named (s.error text).state names

/-- Every reachable interpreter has such a history, and there are no others. -/
theorem reachable_iff_named : Reachable s ↔ ∃ names, Named s names := by
  constructor
  · intro h
    induction h with
    | new limits => exact ⟨_, .new limits⟩
    | attach image entry _ ih => exact ih.elim fun _ h => ⟨_, .attach image entry h⟩
    | detach _ ih => exact ih.elim fun _ h => ⟨_, .detach h⟩
    | setSymbol _ ht ih => exact ih.elim fun _ h => ⟨_, .setSymbol h ht⟩
    | step host world _ ih => exact ih.elim fun _ h => ⟨_, .step host world h⟩
    | trigger event _ ih => exact ih.elim fun _ h => ⟨_, .trigger event h⟩
    | error text _ ih => exact ih.elim fun _ h => ⟨_, .error text h⟩
  · rintro ⟨names, h⟩
    induction h with
    | new limits => exact .new limits
    | attach image entry _ ih => exact .attach image entry ih
    | detach _ ih => exact .detach ih
    | setSymbol _ ht ih => exact .setSymbol ih ht
    | step host world _ ih => exact .step host world ih
    | trigger event _ ih => exact .trigger event ih
    | error text _ ih => exact .error text ih

/-- An event adds no symbol. -/
theorem symbols_trigger (s : Interpreter) (event : String) :
    (s.trigger event).1.symbols = s.symbols := by
  unfold trigger
  split
  · split <;> rfl
  · rfl

/-- All symbols have been given a value since the interpreter was detached last. -/
theorem Named.namedIn (h : Named s names) : s.symbols.NamedIn names := by
  induction h with
  | new limits => exact nofun
  | detach _ _ => exact nofun
  | attach image entry _ ih =>
      unfold Interpreter.attach
      split
      · simpa using ih
      · dsimp only
        split
        · exact nofun
        · next hdetached => simpa [hdetached] using ih
  | setSymbol _ ht ih =>
      unfold Interpreter.setSymbol Except.map at ht
      split at ht
      · contradiction
      · next symbols hassign =>
          obtain rfl := Except.ok.inj ht
          exact (ih.mono fun x hx => .tail _ hx).assign (.head _) hassign
  | step host world _ ih => exact namedIn_step host world ih
  | trigger event _ ih => rwa [symbols_trigger]
  | error text _ ih => rwa [symbols_error]

/-- A symbol that is seen was given a value. -/
theorem Named.mem_of_symbol? (h : Named s names) {x : String} (hx : (s.symbol? x).isSome) :
    x ∈ names := by
  unfold symbol? at hx
  rw [Option.isSome_map] at hx
  exact h.namedIn.mem_of_lookup? hx

/-! ## what a line makes seen -/

/-- The scope is the same on the next line. -/
theorem scope_advance (s : Interpreter) : s.advance.scope = s.scope := by
  unfold advance modifyTop scope top?
  split <;> simp [*]

/-- So are the symbols. -/
theorem symbol?_advance (s : Interpreter) (x : String) : s.advance.symbol? x = s.symbol? x := by
  rw [symbol?, symbol?, scope_advance, advance, symbols_modifyTop]

/-- `x` is seen, or the line was the first one of a loop over a list that has come to its
end, which leaves all symbols as they were. -/
def SeenAfter (s : Interpreter) (x : String) (t : Interpreter) : Prop :=
  (t.symbol? x).isSome ∨
    (∃ items delimiter, s.command? = some (.eachLoop x items delimiter)) ∧ t.symbols = s.symbols

/-- A line that is not at fault makes seen what it gives a value. -/
theorem leads_of_mem_targets {image : Image} {x : String} (hi : s.image = some image)
    (hx : x ∈ s.targets) : (s.execute image).Leads (s.SeenAfter x) := by
  obtain ⟨c, hc, hx⟩ : ∃ c, s.command? = some c ∧ x ∈ c.targets := by
    unfold targets at hx
    cases hc : s.command? with
    | none => simp [hc] at hx
    | some c => exact ⟨c, rfl, by simpa [hc] using hx⟩
  obtain ⟨header, line, he⟩ := execute_of_command? hi hc
  cases hu : s.update? c with
  | some r =>
      rw [he, executeLine_of_update? hu]
      refine .attempt fun symbols hr => .inl ?_
      have hwritten : s.symbols.Written s.scope c.targets symbols := written_update? (hr ▸ hu)
      rw [symbol?_advance, symbol?, Option.isSome_map]
      exact hwritten.isSome_lookup? hx
  | none =>
      cases c with
      | set | clear | declare | expr | index => contradiction
      | eachLoop target items delimiter =>
          obtain rfl := List.mem_singleton.mp hx
          rw [he]
          refine .attempt fun t ht => .attempt fun text _ => ?_
          have hsame := symbols_enterLoop ht
          split
          · unfold breakLoop
            split
            · trivial
            · exact .inr ⟨⟨items, delimiter, hc⟩, (symbols_modifyTop t.pop _).trans hsame⟩
          · refine .attempt fun symbols hassign => .inl ?_
            rw [symbol?_advance, symbol?, Option.isSome_map]
            exact Symbols.isSome_lookup?_of_assign hassign
      | invoke target args =>
          have hinvoked := execute_invoked hi hc
          generalize s.execute image = o at hinvoked
          cases hinvoked with
          | made _ hcalled =>
              obtain ⟨callee, bound, symbols, -, hbound, rfl, hgiven⟩ := hcalled
              refine .inl ?_
              rw [symbol?, Option.isSome_map]
              refine Symbols.isSome_lookup?_of_declared? ?_
              have hname : x ∈ bound.map Prod.fst := names_of_bound hbound ▸ hx
              exact (hgiven (some callee, x)).symm ▸ Symbols.isSome_given hname
          | refused | halfway => trivial
      | _ => contradiction

/-! ## built-in symbols -/

/-- The symbols that every script can read: the pass of the innermost loop, the text of the
last error, and the number of frames. -/
inductive Builtin where
  | index | error | depth
deriving Repr, DecidableEq

/-- The name of a built-in symbol. -/
def Builtin.name : Builtin → String
  | .index => "index"
  | .error => "error"
  | .depth => "depth"

/-- The text of a built-in symbol. -/
def Builtin.text (s : Interpreter) : Builtin → String
  | .index => toString s.loopIndex
  | .error => s.lastError.getD ""
  | .depth => toString s.depth

/-- The name of a built-in symbol is answered by its text. -/
theorem builtin?_name (s : Interpreter) (b : Builtin) : s.builtin? b.name = some (b.text s) := by
  cases b <;> rfl

/-- Only the names of built-in symbols are. -/
theorem name_of_builtin? {x text : String} (h : s.builtin? x = some text) :
    ∃ b : Builtin, b.name = x ∧ b.text s = text := by
  unfold builtin? at h
  split at h
  · exact ⟨.index, rfl, Option.some.inj h⟩
  · exact ⟨.error, rfl, Option.some.inj h⟩
  · exact ⟨.depth, rfl, Option.some.inj h⟩
  · contradiction

/-- A built-in symbol is shown where no other one of its name is seen. -/
theorem value_builtin (s : Interpreter) (b : Builtin) :
    s.value (.symbol b.name) = .ok ((s.symbol? b.name).getD (b.text s)) := by
  rw [value]
  cases s.symbol? b.name with
  | some text => rfl
  | none => simp only [builtin?_name, Option.getD_none]

/-- It is shown unless another text of its name is seen. -/
theorem shown_iff (s : Interpreter) (b : Builtin) :
    s.value (.symbol b.name) = .ok (b.text s) ↔
      ∀ text, s.symbol? b.name = some text → text = b.text s := by
  rw [value_builtin]
  cases s.symbol? b.name with
  | none => simp
  | some text => simp

/-- The test for the empty text is true exactly if a symbol denotes nothing, or has the
empty text. -/
def EmptyAgrees (s : Interpreter) (x : String) : Prop :=
  s.test (.empty (.symbol x)) = .ok true ↔
    (∃ cause, s.value (.symbol x) = .error cause) ∨ s.value (.symbol x) = .ok ""

/-- The test is right about all symbols but those that are built in, have a text and are
not hidden. -/
theorem emptyAgrees_iff (s : Interpreter) (x : String) :
    s.EmptyAgrees x ↔
      ∀ b : Builtin, b.name = x → b.text s ≠ "" → (s.symbol? x).isSome := by
  unfold EmptyAgrees
  cases hx : s.symbol? x with
  | some text => simp [test, value, hx, String.isEmpty_iff]
  | none =>
      cases hb : s.builtin? x with
      | none =>
          refine iff_of_true (by simp [test, value, hx, hb]) fun b hname _ => ?_
          rw [← hname, builtin?_name] at hb
          contradiction
      | some text =>
          obtain ⟨b, rfl, rfl⟩ := name_of_builtin? hb
          have htest : s.test (.empty (.symbol b.name)) = .ok true := by simp [test, hx]
          simp only [htest, value_builtin, hx, Option.getD_none, true_iff, reduceCtorEq,
            exists_false, false_or, Except.ok.injEq, Option.isSome_none]
          constructor
          · intro hempty b' hname hne
            have hsame := builtin?_name s b'
            rw [hname, hb] at hsame
            exact absurd ((Option.some.inj hsame).symm.trans hempty) hne
          · intro h
            by_contra hne
            exact absurd (h b rfl hne) (by simp)

/-- In every history, a built-in symbol is shown exactly if no other text of its name is
seen, and so as long as no line and nobody outside gave its name a value; but a line that
does so is not refused, and what it names is seen from then on. The test for the empty
text is right about a name exactly if it is not that of a built-in symbol with a text that
nothing hides. -/
theorem builtin_shown_iff {names : List String} (h : Named s names) :
    (∀ b : Builtin,
      (s.value (.symbol b.name) = .ok (b.text s) ↔
        ∀ text, s.symbol? b.name = some text → text = b.text s) ∧
      (b.name ∉ names → s.value (.symbol b.name) = .ok (b.text s))) ∧
    (∀ x, s.EmptyAgrees x ↔
      ∀ b : Builtin, b.name = x → b.text s ≠ "" → (s.symbol? x).isSome) ∧
    (∀ x, (s.symbol? x).isSome → x ∈ names) ∧
    ∀ {σ : Type} (host : Host σ) (world : σ) (x : String), s.isRunning = true → x ∈ s.targets →
      s.fault? host world = none → s.SeenAfter x (s.step host world).state := by
  refine ⟨fun b => ⟨shown_iff s b, fun hb => ?_⟩, emptyAgrees_iff s,
    fun x => h.mem_of_symbol?, fun host world x hr hx hf => ?_⟩
  · refine (shown_iff s b).mpr fun text htext => ?_
    exact absurd (h.mem_of_symbol? (Option.isSome_of_eq_some htext)) hb
  · have hsound := (reachable_iff_named.mpr ⟨names, h⟩).sound
    obtain ⟨image, hi⟩ := Option.isSome_iff_exists.mp (hsound.attached hr)
    exact (leads_of_mem_targets hi hx).step hr hi (Option.map_eq_none_iff.mp hf)

/-- A script that counts to two, and keeps the count in a symbol. -/
def countingImage : Image :=
  ⟨[⟨"main", "main",
      [⟨.repeatLoop (.literal "2"), 0, 0, 2⟩, ⟨.set "a" [.symbol "index"], 1, 0, 3⟩,
        ⟨.endLoop, 1, 0, 4⟩, ⟨.exit, 0, 0, 5⟩], [], 0⟩]⟩

/-- The script that counts, after a number of steps. -/
def counting (n : Nat) : Interpreter :=
  (stepsFrom (.silent Unit) ((Interpreter.new .default).attach countingImage none).1 () n).1

/-- In its second pass, the count is one; the symbol of the first pass is seen, and the
test for the empty text is right about it. -/
theorem builtin_shown_counting :
    (counting 4).value (.symbol "index") = .ok "1" ∧ (counting 4).EmptyAgrees "a" ∧
      (counting 1).SeenAfter "a" ((counting 1).step (.silent Unit) ()).state := by
  have hnext (n : Nat) : counting (n + 1) = ((counting n).step (.silent Unit) ()).state :=
    stepsFrom_succ _ _ _ n
  have htargets : (List.range 4).map (fun n => (counting n).targets) = [[], ["a"], [], []] := by
    decide +kernel
  have hnamed (n : Nat) {names : List String} (h : Named (counting n) names) :
      Named (counting (n + 1)) ((counting n).targets ++ names) := by
    rw [hnext]
    exact .step _ _ h
  simp only [List.range, List.range.loop, List.map_cons, List.map_nil, List.cons.injEq, and_true]
    at htargets
  obtain ⟨h0, h1, h2, h3⟩ := htargets
  have hstart : Named (counting 0) [] := .attach countingImage none (.new .default)
  have hfirst : Named (counting 1) [] := by simpa [h0] using hnamed 0 hstart
  have hsecond : Named (counting 2) ["a"] := by simpa [h1] using hnamed 1 hfirst
  have hthird : Named (counting 3) ["a"] := by simpa [h2] using hnamed 2 hsecond
  have hfourth : Named (counting 4) ["a"] := by simpa [h3] using hnamed 3 hthird
  obtain ⟨hshown, hempty, -, -⟩ := builtin_shown_iff hfourth
  have hpass : (counting 4).loopIndex = 1 := by decide +kernel
  refine ⟨?_, ?_, ?_⟩
  · have hindex := (hshown .index).2 (by decide)
    rwa [Builtin.text, hpass] at hindex
  · refine (hempty "a").mpr fun b hb => ?_
    cases b <;> exact absurd hb (by decide)
  · exact (builtin_shown_iff hfirst).2.2.2 (.silent Unit) () "a" (by decide +kernel) (by simp [h1])
      (by decide +kernel)

/-- A script that gives the name of a built-in symbol a value. -/
def hidingImage : Image :=
  ⟨[⟨"main", "main", [⟨.set "index" [.literal "7"], 0, 0, 2⟩, ⟨.exit, 0, 0, 3⟩], [], 0⟩]⟩

/-- The script at its first line. -/
def hidingScript : Interpreter := ((Interpreter.new .default).attach hidingImage none).1

/-- At its first line there is one frame, and `%depth` says so, but counts as empty.  The
line is not refused; outside of every loop, `%index` is seven then. -/
theorem builtin_hidden :
    Reachable hidingScript ∧
      hidingScript.value (.symbol "depth") = .ok "1" ∧
      hidingScript.test (.empty (.symbol "depth")) = .ok true ∧
      ¬ hidingScript.EmptyAgrees "depth" ∧
      Reachable (hidingScript.step (.silent Unit) ()).state ∧
      (hidingScript.step (.silent Unit) ()).state.frames.map Frame.isLoop = [false] ∧
      (hidingScript.step (.silent Unit) ()).state.value (.symbol "index") = .ok "7" := by
  have hreach : Reachable hidingScript := .attach hidingImage none (.new .default)
  have hvalue : hidingScript.value (.symbol "depth") = .ok "1" := by decide +kernel
  have htest : hidingScript.test (.empty (.symbol "depth")) = .ok true := by decide +kernel
  refine ⟨hreach, hvalue, htest, ?_, .step _ _ hreach, by decide +kernel, by decide +kernel⟩
  simp [EmptyAgrees, hvalue, htest]

end Interpreter

end Switchboard
