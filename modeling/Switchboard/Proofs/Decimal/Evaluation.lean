import Switchboard.Proofs.Decimal.Parsing

/-!
# Switchboard.Proofs.Decimal.Evaluation

What expressions given in fragments denote.

1. `Spells` says which tokens the characters of a fragment are: blanks stand
   for nothing, and a number is a longest run of digits and points.
2. A fragment that is a number as a whole is this number, whatever its sign;
   `Spelled` says which tokens a list of fragments are.
3. So an expression has a value exactly if its fragments are the tokens of a
   sentence and no operation of its tree fails, and then it has the value of
   the tree.
4. Reading never fails outside the order of errors, except where it comes to
   a quotient that no word holds.
-/

namespace Switchboard.Decimal

/-! ## tokens of a fragment -/

/-- The tokens that characters are, with only spaces and tabs between them. -/
inductive Spells : List Char → List Token → Prop where
  | nil : Spells [] []
  | blank (h : c = ' ' ∨ c = '\t') (rest : Spells cs ts) : Spells (c :: cs) ts
  | opening (rest : Spells cs ts) : Spells ('(' :: cs) (.opening :: ts)
  | closing (rest : Spells cs ts) : Spells (')' :: cs) (.closing :: ts)
  | operator (h : Operator.ofChar? c = some op) (rest : Spells cs ts) :
      Spells (c :: cs) (.operator op :: ts)
  | number (h : isNumberChar c = true) (digits : ∀ d ∈ run, isNumberChar d = true)
      (longest : ∀ d ∈ cs.head?, isNumberChar d = false)
      (value : parse (String.ofList (c :: run)) = .ok n) (rest : Spells cs ts) :
      Spells (c :: run ++ cs) (.number n :: ts)

/-- The tokens that a fragment is: one number, or those of its characters. -/
inductive SpellsFragment (fragment : String) : List Token → Prop where
  | number (value : parse fragment = .ok n) (written : Text.trim fragment.toList ≠ []) :
      SpellsFragment fragment [.number n]
  | scanned (other : ∀ n, parse fragment = .ok n → Text.trim fragment.toList = [])
      (spells : Spells fragment.toList ts) : SpellsFragment fragment ts

/-- The tokens that fragments are, one fragment after the other. -/
inductive Spelled : List String → List Token → Prop where
  | nil : Spelled [] []
  | cons (first : SpellsFragment fragment us) (others : Spelled fragments vs) :
      Spelled (fragment :: fragments) (us ++ vs)

/-- A character of a number is none that stands for itself. -/
theorem isNumberChar_spec {c : Char} (h : isNumberChar c = true) :
    ¬(c = ' ' ∨ c = '\t') ∧ c ≠ '(' ∧ c ≠ ')' ∧ Operator.ofChar? c = none := by
  refine ⟨?_, ?_, ?_, ?_⟩
  · rintro (rfl | rfl) <;> exact absurd h (by decide)
  · rintro rfl
    exact absurd h (by decide)
  · rintro rfl
    exact absurd h (by decide)
  · unfold Operator.ofChar?
    split <;> first | rfl | exact absurd h (by decide)

/-- A character that is an operator is no blank and no parenthesis. -/
theorem Operator.ofChar?_spec {c : Char} {op : Operator} (h : Operator.ofChar? c = some op) :
    ¬(c = ' ' ∨ c = '\t') ∧ c ≠ '(' ∧ c ≠ ')' := by
  refine ⟨?_, ?_, ?_⟩
  · rintro (rfl | rfl) <;> exact absurd h (by simp [Operator.ofChar?])
  · rintro rfl
    exact absurd h (by simp [Operator.ofChar?])
  · rintro rfl
    exact absurd h (by simp [Operator.ofChar?])

/-- The run of a number ends where another character begins. -/
theorem run_eq {run cs : List Char} (hdigits : ∀ d ∈ run, isNumberChar d = true)
    (hlongest : ∀ d ∈ cs.head?, isNumberChar d = false) :
    (run ++ cs).takeWhile isNumberChar = run ∧ (run ++ cs).dropWhile isNumberChar = cs := by
  rw [List.takeWhile_append_of_pos hdigits, List.dropWhile_append_of_pos hdigits]
  cases cs with
  | nil => simp
  | cons d cs =>
      have hd : isNumberChar d = false := hlongest d rfl
      simp [hd]

/-- What spells tokens is scanned to them. -/
theorem Spells.scan {text : String} {cs : List Char} {ts : List Token} (h : Spells cs ts) :
    scan text cs = .ok ts := by
  induction h with
  | nil => rw [Decimal.scan]
  | blank h _ ih => rw [Decimal.scan, if_pos h, ih]
  | opening _ ih => rw [Decimal.scan, if_neg (by decide), if_pos rfl, ih]; rfl
  | closing _ ih => rw [Decimal.scan, if_neg (by decide), if_neg (by decide), if_pos rfl, ih]; rfl
  | operator h _ ih =>
      obtain ⟨hb, ho, hc⟩ := Operator.ofChar?_spec h
      rw [Decimal.scan, if_neg hb, if_neg ho, if_neg hc]
      simp only [h, ih]
      rfl
  | number h hdigits hlongest hvalue _ ih =>
      obtain ⟨hb, ho, hc, hop⟩ := isNumberChar_spec h
      obtain ⟨htaken, hdropped⟩ := run_eq hdigits hlongest
      rw [List.cons_append, Decimal.scan, if_neg hb, if_neg ho, if_neg hc]
      simp only [hop, h, if_true, htaken, hvalue, hdropped]
      show (Except.map _ _) = _
      rw [ih]
      rfl

/-- What a map gives comes of a result. -/
theorem ok_of_map {ε α β : Type} {x : Except ε α} {f : α → β} {b : β}
    (h : x.map f = .ok b) : ∃ a, x = .ok a ∧ f a = b := by
  cases x with
  | error e => exact nomatch h
  | ok a => exact ⟨a, rfl, Except.ok.inj h⟩

/-- What is scanned to tokens spells them. -/
theorem Spells.of_scan {text : String} {cs : List Char} {ts : List Token}
    (h : Decimal.scan text cs = .ok ts) : Spells cs ts := by
  fun_induction Decimal.scan text cs generalizing ts with
  | case1 => cases h; exact .nil
  | case2 c rest hb ih => exact .blank hb (ih h)
  | case3 rest _ ih =>
      obtain ⟨us, hs, rfl⟩ := ok_of_map h
      exact .opening (ih hs)
  | case4 rest _ _ ih =>
      obtain ⟨us, hs, rfl⟩ := ok_of_map h
      exact .closing (ih hs)
  | case5 c rest _ _ _ op hop ih =>
      obtain ⟨us, hs, rfl⟩ := ok_of_map h
      exact .operator hop (ih hs)
  | case6 c rest _ _ _ _ hn ih =>
      obtain ⟨n, hv, h⟩ := ok_of_bind h
      obtain ⟨us, hs, rfl⟩ := ok_of_map h
      have hsplit := List.takeWhile_append_dropWhile (p := isNumberChar) (l := rest)
      conv => enter [1]; rw [← hsplit, ← List.cons_append]
      refine .number hn (List.all_eq_true.1 List.all_takeWhile) (fun d hd => ?_) hv (ih hs)
      have hstop := List.head?_dropWhile_not isNumberChar rest
      rwa [Option.mem_def.1 hd] at hstop
  | case7 => cases h

/-! ## tokens of an expression -/

/-- A fragment is scanned to tokens exactly if it spells them. -/
theorem tokens_ok_iff {fragment : String} {ts : List Token} :
    tokens fragment = .ok ts ↔ SpellsFragment fragment ts := by
  unfold tokens
  cases hp : parse fragment with
  | error e =>
      refine ⟨fun h => .scanned (fun n hn => ?_) (.of_scan h), fun h => ?_⟩
      · rw [hp] at hn
        cases hn
      · cases h with
        | number hvalue _ => rw [hp] at hvalue; cases hvalue
        | scanned _ hspells => exact hspells.scan
  | ok n =>
      simp only [List.isEmpty_iff]
      split
      · next hblank =>
        refine ⟨fun h => .scanned (fun _ _ => hblank) (.of_scan h), fun h => ?_⟩
        cases h with
        | number _ hwritten => exact absurd hblank hwritten
        | scanned _ hspells => exact hspells.scan
      · next hwritten =>
        constructor
        · intro h
          cases h
          exact .number hp hwritten
        · intro h
          cases h with
          | number hvalue _ => rw [hp] at hvalue; cases hvalue; rfl
          | scanned hother _ => exact absurd (hother n hp) hwritten

/-- So are fragments. -/
theorem tokensOf_ok_iff {fragments : List String} {ts : List Token} :
    tokensOf fragments = .ok ts ↔ Spelled fragments ts := by
  constructor
  · intro h
    induction fragments generalizing ts with
    | nil => cases h; exact .nil
    | cons fragment others ih =>
        obtain ⟨us, hu, h⟩ := ok_of_bind h
        obtain ⟨vs, hv, h⟩ := ok_of_bind h
        cases h
        exact .cons (tokens_ok_iff.1 hu) (ih hv)
  · intro h
    induction h with
    | nil => rfl
    | cons hfirst _ ih =>
        rw [tokensOf, tokens_ok_iff.2 hfirst, ih]
        rfl

/-! ## texts never divide -/

/-- Digits are refused only where they exceed a word. -/
theorem unitsOf_error {digits : List Char} {e : Error} (h : unitsOf digits = .error e) :
    e = .overflow := by
  unfold unitsOf at h
  generalize (0 : Int) = n at h
  induction digits generalizing n with
  | nil => cases h
  | cons c digits ih =>
      rw [List.foldlM_cons] at h
      unfold checked at h
      split at h
      · exact ih _ h
      · cases h
        rfl

/-- A numeral is refused as no number, or as too large. -/
theorem parse_error {text : String} {e : Error} (h : parse text = .error e) :
    e = .invalidNumber text ∨ e = .overflow := by
  unfold parse at h
  simp only at h
  split at h
  · cases h
  · split at h
    · cases h
      exact .inl rfl
    · cases hu : unitsOf _ with
      | error e' =>
          rw [hu] at h
          cases h
          exact .inr (unitsOf_error hu)
      | ok units => rw [hu] at h; cases h

/-- No numeral traps. -/
theorem parse_ne_trap (text : String) : parse text ≠ .error .quotientOutOfRange := by
  intro h
  obtain h | h := parse_error h <;> cases h

/-- A map adds no error. -/
theorem map_ne_error {ε α β : Type} {x : Except ε α} {e : ε} (h : x ≠ .error e) (f : α → β) :
    x.map f ≠ .error e := by
  cases x with
  | error e' => exact fun he => h (by cases he; rfl)
  | ok a => exact nofun

/-- An error of two steps is one of the first or one of the second. -/
theorem bind_ne_error {ε α β : Type} {x : Except ε α} {e : ε} (h : x ≠ .error e)
    {f : α → Except ε β} (hf : ∀ a, x = .ok a → f a ≠ .error e) : x >>= f ≠ .error e := by
  cases x with
  | error e' => exact fun he => h (by cases he; rfl)
  | ok a => exact hf a rfl

/-- No scan traps. -/
theorem scan_ne_trap (text : String) (cs : List Char) :
    scan text cs ≠ .error .quotientOutOfRange := by
  fun_induction scan text cs with
  | case1 => exact nofun
  | case2 _ _ _ ih => exact ih
  | case3 _ _ ih | case4 _ _ _ ih | case5 _ _ _ _ _ _ _ ih => exact map_ne_error ih _
  | case6 _ _ _ _ _ _ _ ih => exact bind_ne_error (parse_ne_trap _) fun _ _ => map_ne_error ih _
  | case7 => exact nofun

/-- Nor does a fragment that is split. -/
theorem tokens_ne_trap (fragment : String) : tokens fragment ≠ .error .quotientOutOfRange := by
  unfold tokens
  split
  · split
    · exact scan_ne_trap _ _
    · exact nofun
  · exact scan_ne_trap _ _

/-- Nor do fragments. -/
theorem tokensOf_ne_trap (fragments : List String) :
    tokensOf fragments ≠ .error .quotientOutOfRange := by
  induction fragments with
  | nil => exact nofun
  | cons fragment others ih =>
      exact bind_ne_error (tokens_ne_trap fragment) fun _ _ => bind_ne_error ih fun _ _ => nofun

/-- A number is refused only where it exceeds a word. -/
theorem rescale_error {d : Decimal} {scale : Nat} {e : Error} (h : d.rescale scale = .error e) :
    e = .overflow := by
  unfold rescale checked at h
  split at h
  · split at h <;> cases h
    rfl
  · cases h

/-- No change of scale traps. -/
theorem rescale_ne_trap (d : Decimal) (scale : Nat) :
    d.rescale scale ≠ .error .quotientOutOfRange :=
  fun h => nomatch rescale_error h

/-! ## values of expressions -/

/-- An evaluation has a value exactly if its tokens are a sentence whose tree has it. -/
theorem evaluate_ok_iff {fragments : List String} {decimals : Nat} {v : Decimal} :
    evaluate fragments decimals = .ok v ↔
      ∃ ts t, Spelled fragments ts ∧ Sentence ts t ∧ t.value (capOf decimals) = .ok v := by
  constructor
  · intro h
    obtain ⟨ts, hspelled, h⟩ := ok_of_bind h
    obtain ⟨t, hsentence, hvalue⟩ := evaluateTokens_ok_iff.1 h
    exact ⟨ts, t, tokensOf_ok_iff.1 hspelled, hsentence, hvalue⟩
  · rintro ⟨ts, t, hspelled, hsentence, hvalue⟩
    rw [evaluate, tokensOf_ok_iff.2 hspelled]
    exact evaluateTokens_ok_iff.2 ⟨t, hsentence, hvalue⟩

/-- It traps exactly if it comes to an operation that does. -/
theorem evaluate_trap_iff {fragments : List String} {decimals : Nat} :
    evaluate fragments decimals = .error .quotientOutOfRange ↔
      ∃ ts a op b, Spelled fragments ts ∧ Comes (capOf decimals) ts a op b ∧
        a.binary op b (capOf decimals) = .error .quotientOutOfRange := by
  have herrorIff (ts : List Token) :
      evaluateTokens ts (capOf decimals) = .error .quotientOutOfRange ↔
        ∃ a op b, Comes (capOf decimals) ts a op b ∧
          a.binary op b (capOf decimals) = .error .quotientOutOfRange :=
    evaluateTokens_error_iff nofun fun _ _ => rescale_ne_trap _ _
  constructor
  · intro h
    cases hspelled : tokensOf fragments with
    | error e =>
        rw [evaluate, hspelled] at h
        cases h
        exact absurd hspelled (tokensOf_ne_trap fragments)
    | ok ts =>
        rw [evaluate, hspelled] at h
        obtain ⟨a, op, b, hcomes, hfailed⟩ := (herrorIff ts).1 h
        exact ⟨ts, a, op, b, tokensOf_ok_iff.1 hspelled, hcomes, hfailed⟩
  · rintro ⟨ts, a, op, b, hspelled, hcomes, hfailed⟩
    rw [evaluate, tokensOf_ok_iff.2 hspelled]
    exact (herrorIff ts).2 ⟨a, op, b, hcomes, hfailed⟩

/-- The value of an expression is the value of its one tree, and there is none
otherwise, but an error: one that a script can handle, except where reading
comes to a quotient that no word holds. -/
theorem evaluate_iff_tree_value (fragments : List String) (decimals : Nat) :
    (∀ v, evaluate fragments decimals = .ok v ↔
      ∃ ts t, Spelled fragments ts ∧ Sentence ts t ∧ (∀ u, Sentence ts u → u = t) ∧
        t.value (capOf decimals) = .ok v) ∧
    (evaluate fragments decimals = .error .quotientOutOfRange ↔
      ∃ ts a op b, Spelled fragments ts ∧ Comes (capOf decimals) ts a op b ∧
        a.binary op b (capOf decimals) = .error .quotientOutOfRange) := by
  refine ⟨fun v => ?_, evaluate_trap_iff⟩
  rw [evaluate_ok_iff]
  constructor
  · rintro ⟨ts, t, hspelled, hsentence, hvalue⟩
    exact ⟨ts, t, hspelled, hsentence, fun _ => hsentence.unique, hvalue⟩
  · rintro ⟨ts, t, hspelled, hsentence, -, hvalue⟩
    exact ⟨ts, t, hspelled, hsentence, hvalue⟩

/-- The least word is no literal, but it is reached by a difference. Nothing that
is minus one divides it. -/
theorem evaluate_least_div {fragments : List String} {ts : List Token} {t : Tree}
    (hspelled : Spelled fragments ts) (hoperand : Reads .unary ts t [])
    (hvalue : t.value 0 = .ok ⟨-1, 0⟩) :
    evaluate ("(" :: "-170141183460469231731687303715884105727" :: "-" :: "1" :: ")" :: "/" ::
      fragments) 0 = .error .quotientOutOfRange := by
  have hopening : tokens "(" = .ok [.opening] := (Spells.opening .nil).scan
  have hleast : tokens "-170141183460469231731687303715884105727" =
    .ok [.number ⟨-greatest, 0⟩] := rfl
  have hminus : tokens "-" = .ok [.operator .sub] := (Spells.operator rfl .nil).scan
  have hone : tokens "1" = .ok [.number ⟨1, 0⟩] := rfl
  have hclosing : tokens ")" = .ok [.closing] := (Spells.closing .nil).scan
  have hdiv : tokens "/" = .ok [.operator .div] := (Spells.operator rfl .nil).scan
  have hread := Spelled.cons (tokens_ok_iff.1 hopening) (.cons (tokens_ok_iff.1 hleast)
    (.cons (tokens_ok_iff.1 hminus) (.cons (tokens_ok_iff.1 hone) (.cons (tokens_ok_iff.1 hclosing)
      (.cons (tokens_ok_iff.1 hdiv) hspelled)))))
  have hdifference : Reads .sum (.number ⟨-greatest, 0⟩ :: .operator .sub :: .number ⟨1, 0⟩ ::
      .closing :: .operator .div :: ts) _ (.closing :: .operator .div :: ts) :=
    .sum (.product .literal .noFactor) (.term rfl (.product .literal .noFactor) .noTerm)
  have hcomes : Comes 0 _ ⟨-greatest - 1, 0⟩ .div ⟨-1, 0⟩ :=
    .factor (.product .start) (.product (.group hdifference) .noFactor) rfl rfl hoperand hvalue
  exact evaluate_trap_iff.2 ⟨_, _, _, _, hread, hcomes, rfl⟩

/-- The least word, reached by a difference and divided by minus one, has a
tree but neither a value nor an error that a script can handle. -/
theorem least_by_minus_one_traps :
    evaluate ["(", "-170141183460469231731687303715884105727", "-", "1", ")", "/", "-1"] 0 =
      .error .quotientOutOfRange := by
  have hdivisor : tokens "-1" = .ok [.number ⟨-1, 0⟩] := rfl
  exact evaluate_least_div (.cons (tokens_ok_iff.1 hdivisor) .nil) .literal rfl

end Switchboard.Decimal
