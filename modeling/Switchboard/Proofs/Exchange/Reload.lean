import Switchboard.Proofs.Exchange.NextCall

/-!
# Switchboard.Proofs.Exchange.Reload

New scripts, while calls go on.

1. Scripts and schedule come into force together or not at all: a reload succeeds
   if and only if both can be loaded, counts one generation further, and puts what
   was loaded from the present source into force; otherwise nothing changes but the
   messages (`reload_cases`).
2. Events and timers do not look at the scripts in force, for a call has its own
   from its beginning (`Work.post_scripts`).  So exchanges that differ in scripts and
   messages alone go on differing in these alone (`ScriptsApart`), whatever reloads
   there are on the way.
3. The same holds of one slot while anything happens beside it (`Told`), for a
   reload is beside every slot: `reload_invisible`.
-/

namespace Switchboard

/-! ## loading -/

/-- What a source has, once it is compiled: the image of its scripts, and the rules of its
schedule. -/
structure LoadedScripts.From (commands : Commands) (source : Source) (d : Directory)
    (image : Image) (rules : List Schedule.Rule) : Prop where
  scripts : ∃ texts, source.scripts d = .ok texts ∧
    (compile commands texts).diagnostics = [] ∧ image = (compile commands texts).image
  schedule : ∃ text, source.schedule d = .ok text ∧ LoadedScripts.rulesOf text = .ok rules

/-- Loading succeeds with what the source has, and with nothing else. -/
theorem LoadedScripts.load_ok_iff {commands : Commands} {source : Source} {d : Directory}
    {generation : Nat} {loaded : LoadedScripts} :
    LoadedScripts.load commands source d generation = .ok loaded ↔
      loaded.generation = generation ∧
        LoadedScripts.From commands source d loaded.image loaded.rules := by
  unfold LoadedScripts.load
  constructor
  · intro h
    obtain ⟨texts, hs, h⟩ := ok_of_bind h
    dsimp only at h
    split at h
    · exact nomatch h
    · next hclean =>
      obtain ⟨text, ht, h⟩ := ok_of_bind h
      obtain ⟨rules, hr, h⟩ := ok_of_bind h
      obtain rfl := Except.ok.inj h
      have haccepted : (compile commands texts).diagnostics = [] := by
        simpa [Compilation.isClean] using hclean
      exact ⟨rfl, ⟨texts, hs, haccepted, rfl⟩, text, ht, hr⟩
  · rintro ⟨rfl, ⟨texts, hs, haccepted, himage⟩, text, ht, hr⟩
    have hclean : (compile commands texts).isClean = true := List.isEmpty_iff.2 haccepted
    simp only [hs, ht, hr, hclean, ← himage, bind, Except.bind, pure, Except.pure]
    rfl

namespace Work

variable {σ : Type}

/-! ## work without scripts -/

/-- A turn does not look at the scripts that are loaded. -/
theorem runFor_scripts (o : Office σ) (scripts : LoadedScripts) (n : Nat) :
    runFor { o with scripts } n = runFor o n := by
  induction n with
  | zero => rfl
  | succ n ih =>
      funext s
      rw [runFor, runFor, ih]
      rfl

/-- What an event comes to does not depend on the scripts in force. -/
theorem post_scripts (o : Office σ) (scripts : LoadedScripts) (e : Event) (s : Slot σ) :
    post { o with scripts } e s = post o e s := by
  have hturn : run { o with scripts } = run o := runFor_scripts o scripts _
  unfold post
  cases s.state with
  | offline | idle => rfl
  | releasing => cases e <;> rfl
  | scripting =>
      cases e with
      | timeout => exact congrArg (fun run => (run s, Outcome.handled)) hturn
      | signal name =>
          dsimp only [postScripting]
          rw [hturn]
      | drop | hangup | disable | shutdown | enable | release => rfl

/-- Nor does the end of a time. -/
theorem expire_scripts (o : Office σ) (scripts : LoadedScripts) (now : Nat) (s : Slot σ) :
    expire { o with scripts } now s = expire o now s := by
  unfold expire
  rw [post_scripts]

end Work

/-- An entry is made whatever messages were sent before. -/
theorem Ledger.enter_journal (id : SlotId) (l : Ledger) (journal : List Notice) (e : Entry) :
    ∃ sent, { l with journal }.enter id e = { l.enter id e with journal := sent } := by
  cases e with
  | calls w =>
      unfold enter call
      dsimp only
      split <;> exact ⟨_, rfl⟩
  | relists =>
      unfold enter
      dsimp only
      split <;> exact ⟨_, rfl⟩
  | identifies wanted => cases wanted <;> exact ⟨_, rfl⟩
  | records kind c now =>
      unfold enter submit call
      dsimp only
      split
      · split <;> exact ⟨_, rfl⟩
      · exact ⟨_, rfl⟩
  | notes | orders | strikes | lists | unlists | books | breaks => exact ⟨_, rfl⟩

/-- Entries are made alike, whatever the journal holds. -/
theorem Ledger.enterAll_journal (id : SlotId) (l : Ledger) (journal : List Notice)
    (es : List Entry) :
    ∃ sent, { l with journal }.enterAll id es = { l.enterAll id es with journal := sent } := by
  induction es generalizing l journal with
  | nil => exact ⟨journal, rfl⟩
  | cons e rest ih =>
      obtain ⟨sent, he⟩ := l.enter_journal id journal e
      obtain ⟨all, h⟩ := ih (l.enter id e) sent
      exact ⟨all, (congrArg (enterAll id · rest) he).trans h⟩

namespace Exchange

variable {σ : Type} {x y z : Exchange σ} {id : SlotId}

/-! ## both or neither -/

/-- What comes of a reload: the scripts and the schedule of the present source are in force
together, with the next generation, or nothing has changed but the messages. -/
inductive Reloaded (x : Exchange σ) : Exchange σ × Except Error Nat → Prop
  | renewed {image : Image} {rules : List Schedule.Rule} :
      LoadedScripts.From x.commands x.source x.directory image rules →
      Reloaded x ({ x with office := { x.office with
        scripts := ⟨image, rules, x.generation + 1⟩ } }, .ok (x.generation + 1))
  | kept {e : Error} {notices : List Notice} : (∀ id, Notice.alreadyIdle id ∉ notices) →
      (¬ ∃ image rules, LoadedScripts.From x.commands x.source x.directory image rules) →
      Reloaded x ({ x with ledger := x.ledger.notes notices }, .error e)

/-- A reload takes all scripts, or none. -/
theorem reload_cases (x : Exchange σ) : Reloaded x x.reload := by
  unfold reload
  cases h : LoadedScripts.load x.commands x.source x.directory (x.generation + 1) with
  | ok loaded =>
      obtain ⟨image, rules, generation⟩ := loaded
      obtain ⟨rfl, hloads⟩ := LoadedScripts.load_ok_iff.1 h
      exact .renewed hloads
  | error e =>
      refine .kept (fun id hid => ?_) ?_
      · cases e <;> simp [diagnosticNotices] at hid
      · rintro ⟨image, rules, hloads⟩
        have hok : LoadedScripts.load x.commands x.source x.directory (x.generation + 1) =
            .ok ⟨image, rules, x.generation + 1⟩ := LoadedScripts.load_ok_iff.2 ⟨rfl, hloads⟩
        cases h.symm.trans hok

/-! ## side by side -/

/-- Exchanges that differ in scripts, in their sources and in the messages that were
sent, and in nothing else. -/
structure ScriptsApart (x y : Exchange σ) : Prop where
  config : y.config = x.config
  office : y.office = { x.office with scripts := y.office.scripts }
  slots : y.slots = x.slots
  ledger : y.ledger = { x.ledger with journal := y.ledger.journal }
  commands : y.commands = x.commands
  queueTaken : y.queueTaken = x.queueTaken

namespace ScriptsApart

/-- An exchange differs from itself in nothing. -/
theorem refl (x : Exchange σ) : ScriptsApart x x := ⟨rfl, rfl, rfl, rfl, rfl, rfl⟩

/-- Exchanges differ in either order. -/
theorem symm (h : ScriptsApart x y) : ScriptsApart y x :=
  ⟨h.config.symm, by rw [h.office], h.slots.symm, by rw [h.ledger], h.commands.symm,
    h.queueTaken.symm⟩

/-- Where two exchanges differ from a third in their scripts only, they differ from each
other in no more. -/
theorem trans (h : ScriptsApart x y) (h' : ScriptsApart y z) : ScriptsApart x z :=
  ⟨h'.config.trans h.config, by rw [h'.office, h.office], h'.slots.trans h.slots,
    by rw [h'.ledger, h.ledger], h'.commands.trans h.commands, h'.queueTaken.trans h.queueTaken⟩

/-- Whatever the source has now, and whether it can be loaded or not. -/
theorem reload (x : Exchange σ) (source : Source) (directory : Directory) :
    ScriptsApart x ({ x with source, directory } : Exchange σ).reload.1 := by
  have hcases := reload_cases ({ x with source, directory } : Exchange σ)
  generalize ({ x with source, directory } : Exchange σ).reload = reloaded at hcases
  cases hcases with
  | renewed _ | kept _ _ => exact ⟨rfl, rfl, rfl, rfl, rfl, rfl⟩

/-- The same work on the same slot. -/
theorem atSlot {α : Type} (h : ScriptsApart x y) (id : SlotId) {f g : Station σ → Station σ × α}
    {work : Slot σ → Work σ × α} (hf : Station.Answers f work) (hg : Station.Answers g work) :
    ScriptsApart (x.atSlot id f).1 (y.atSlot id g).1 ∧
      (y.atSlot id g).2 = (x.atSlot id f).2 := by
  cases hs : x.slots[id]? with
  | none =>
      rw [atSlot_of_none hs, atSlot_of_none (h.slots ▸ hs)]
      exact ⟨h, rfl⟩
  | some s =>
      obtain ⟨sent, hentries⟩ :=
        x.ledger.enterAll_journal (work s).1.slot.id y.ledger.journal (work s).1.entries
      rw [← h.ledger] at hentries
      have hthere : y.slots[id]? = some s := by rw [h.slots, hs]
      rw [atSlot_of_getElem? hs, atSlot_of_getElem? hthere, hf.eq, hg.eq]
      refine ⟨⟨h.config, h.office, ?_, ?_, h.commands, h.queueTaken⟩, rfl⟩
      · dsimp only
        rw [h.slots]
        rfl
      · dsimp only [Work.on]
        rw [hentries]

/-- After an event they differ in their scripts only, and have answered alike. -/
theorem post (h : ScriptsApart x y) (id : SlotId) (e : Event) :
    ScriptsApart (x.post id e).1 (y.post id e).1 ∧ (y.post id e).2 = (x.post id e).2 := by
  have hwork : Work.post y.office e = Work.post x.office e := by
    rw [h.office]
    exact funext (Work.post_scripts x.office y.office.scripts e)
  have hanswers := Station.Answers.post y.office e
  rw [hwork] at hanswers
  obtain ⟨hapart, hsame⟩ := h.atSlot id (Station.Answers.post x.office e) hanswers
  refine ⟨by rwa [post_eq_atSlot, post_eq_atSlot], ?_⟩
  unfold Exchange.post
  generalize x.atSlot id (Station.post x.office e) = a,
    y.atSlot id (Station.post y.office e) = b at hsame
  obtain ⟨x', answer⟩ := a
  obtain ⟨y', answer'⟩ := b
  obtain rfl : answer' = answer := hsame
  cases answer' <;> rfl

/-- So they do after the end of a time. -/
theorem expire (h : ScriptsApart x y) (id : SlotId) (now : Nat) :
    ScriptsApart (x.expire id now).1 (y.expire id now).1 ∧
      (y.expire id now).2 = (x.expire id now).2 := by
  have hwork : Work.expire y.office now = Work.expire x.office now := by
    rw [h.office]
    exact funext (Work.expire_scripts x.office y.office.scripts now)
  have hanswers := Station.Answers.expire y.office now
  rw [hwork] at hanswers
  obtain ⟨hapart, hsame⟩ := h.atSlot id (Station.Answers.expire x.office now) hanswers
  exact ⟨hapart, congrArg Option.join hsame⟩

/-- So they do when time has passed. -/
theorem pass (h : ScriptsApart x y) (clock : Clock) :
    ScriptsApart { x with office := { x.office with clock } }
      { y with office := { y.office with clock } } :=
  ⟨h.config, by dsimp only; rw [h.office], h.slots, h.ledger, h.commands, h.queueTaken⟩

end ScriptsApart

/-! ## calls that go on -/

/-- What happens to calls that have begun: events, timers, time, and scripts that are loaded
from a source with whatever content it has by then. -/
inductive Moment where
  | post (id : SlotId) (e : Event)
  | expire (id : SlotId) (now : Nat)
  | pass (clock : Clock)
  | reload (source : Source) (directory : Directory)

/-- Whether scripts are loaded. -/
def Moment.isReload : Moment → Bool
  | .reload _ _ => true
  | _ => false

/-- What becomes of an exchange, and the outcomes of all events and timers. -/
def goOn (x : Exchange σ) : List Moment → Exchange σ × List (Except Error (Option Outcome))
  | [] => (x, [])
  | .post id e :: rest =>
    let (y, outcomes) := (x.post id e).1.goOn rest
    (y, Except.map some (x.post id e).2 :: outcomes)
  | .expire id now :: rest =>
    let (y, outcomes) := (x.expire id now).1.goOn rest
    (y, .ok (x.expire id now).2 :: outcomes)
  | .pass clock :: rest => { x with office := { x.office with clock } }.goOn rest
  | .reload source directory :: rest => { x with source, directory }.reload.1.goOn rest

/-- Reloads leave no trace in what goes on. -/
theorem ScriptsApart.goOn (h : ScriptsApart x y) (moments : List Moment) :
    ScriptsApart (x.goOn (moments.filter fun m => !m.isReload)).1 (y.goOn moments).1 ∧
      (y.goOn moments).2 = (x.goOn (moments.filter fun m => !m.isReload)).2 := by
  induction moments generalizing x y with
  | nil => exact ⟨h, rfl⟩
  | cons m rest ih =>
      cases m with
      | post id e =>
          obtain ⟨hapart, hsame⟩ := h.post id e
          obtain ⟨hafter, houtcomes⟩ := ih hapart
          exact ⟨hafter, congrArg₂ (fun r => (Except.map some r :: ·)) hsame houtcomes⟩
      | expire id now =>
          obtain ⟨hapart, hsame⟩ := h.expire id now
          obtain ⟨hafter, houtcomes⟩ := ih hapart
          exact ⟨hafter, congrArg₂ (fun r => (Except.ok r :: ·)) hsame houtcomes⟩
      | pass clock => exact ih (h.pass clock)
      | reload source directory => exact ih (h.trans (.reload y source directory))

/-- A reload, whatever the source has by then, happens beside every slot. -/
theorem Told.reload {es : List Event} (h : Told id x es y) (source : Source)
    (directory : Directory) :
    Told id x es ({ y with source, directory } : Exchange σ).reload.1 := by
  have hchanged : Told id x es { y with source, directory } :=
    h.beside (.spared (.elsewhere ⟨rfl, rfl, rfl, rfl, fun _ h => h, rfl⟩) rfl rfl)
  have hcases := reload_cases ({ y with source, directory } : Exchange σ)
  generalize ({ y with source, directory } : Exchange σ).reload = reloaded at hcases
  cases hcases with
  | renewed _ => exact hchanged.beside (.spared (.reload _) rfl rfl)
  | kept hquiet _ => exact hchanged.beside (.spared (.elsewhere (.notes _ hquiet)) rfl rfl)

/-- The course of a call from one beginning. -/
theorem Alongside.here (hx : x.Lawful) {s : Slot σ} (hs : x.slots[id]? = some s) :
    Alongside id (x.ledger.ordersOf id) (x.ledger.ordersOf id) x x :=
  ⟨⟨hx, hx⟩, rfl, rfl, s, s, [], hs, hs, rfl, (List.append_nil _).symm, (List.append_nil _).symm⟩

/-- Slots that did the same so far give the same answer to an event. -/
theorem Alongside.answer {before before' : List Order} (h : Alongside id before before' x y)
    (e : Event) : (x.post id e).2 = (y.post id e).2 := by
  obtain ⟨s, t, -, hs, ht, hst, -, -⟩ := h.slots
  obtain ⟨-, hsame⟩ := Work.agree_post h.adapter (fun _ => h.turns) e hst
  unfold Exchange.post
  rw [atSlot_of_getElem? hs, atSlot_of_getElem? ht, (Station.Answers.post x.office e).eq,
    (Station.Answers.post y.office e).eq]
  exact congrArg Except.ok hsame

/-- A reload is atomic, and calls that have begun do not see it.

1. Whatever the source has by then, a reload either answers the next generation, which is
   in force with the image and the rules of that source and nothing else changed; or it
   answers an error, because scripts or schedule cannot be loaded, and what is in force is
   what was before.
2. With reloads anywhere on the way, events, timers and time lead to the same outcomes, the same
   slots and the same books, with the orders of all devices, but for the messages.
3. From whatever state a slot is in, as long as it carries a call, all that happens is events
   for it and what is beside it, other calls and reloads among it; and after the same events
   the device was told the same, and the slot has the same interpreter with the same
   symbols, the same reason for the end of the call, and answers alike. -/
theorem reload_atomic_invisible :
    (∀ {σ : Type} (x : Exchange σ) (source : Source) (directory : Directory),
      (∀ y g, ({ x with source, directory } : Exchange σ).reload = (y, .ok g) →
        g = x.generation + 1 ∧ y.generation = g ∧
        LoadedScripts.From x.commands source directory y.office.scripts.image
          y.office.scripts.rules ∧
        y = { x with source, directory, office := { x.office with scripts := y.office.scripts } }) ∧
      ∀ y e, ({ x with source, directory } : Exchange σ).reload = (y, .error e) →
        y.office = x.office ∧ y.slots = x.slots ∧
        y.ledger = { x.ledger with journal := y.ledger.journal } ∧
        ¬ ∃ image rules, LoadedScripts.From x.commands source directory image rules) ∧
    (∀ {σ : Type} (x : Exchange σ) (moments : List Moment),
      (x.goOn moments).2 = (x.goOn (moments.filter fun m => !m.isReload)).2 ∧
      (x.goOn moments).1.slots = (x.goOn (moments.filter fun m => !m.isReload)).1.slots ∧
      (x.goOn moments).1.ledger =
        { (x.goOn (moments.filter fun m => !m.isReload)).1.ledger with
          journal := (x.goOn moments).1.ledger.journal }) ∧
    ∀ {σ : Type} {x : Exchange σ} {id : SlotId} {s : Slot σ}, Reach x →
      x.slots[id]? = some s →
        (∀ y, During id x y → ∃ es, Told id x es y) ∧
        (∀ es y source directory, Told id x es y →
          Told id x es ({ y with source, directory } : Exchange σ).reload.1) ∧
        ∀ es y z, Told id x es y → Told id x es z →
          ∃ t u os, y.slots[id]? = some t ∧ z.slots[id]? = some u ∧
            y.ledger.ordersOf id = x.ledger.ordersOf id ++ os ∧
            z.ledger.ordersOf id = x.ledger.ordersOf id ++ os ∧
            t.timeless = u.timeless ∧ t.interpreter = u.interpreter ∧
            t.call.map (·.reason) = u.call.map (·.reason) ∧
            ∀ e, (y.post id e).2 = (z.post id e).2 := by
  refine ⟨fun x source directory => ?_, fun x moments => ?_, fun {σ x id s} hx hs => ?_⟩
  · have hcases := reload_cases ({ x with source, directory } : Exchange _)
    generalize ({ x with source, directory } : Exchange _).reload = reloaded at hcases
    cases hcases with
    | renewed hloads =>
        refine ⟨fun y g he => ?_, fun y e he => nomatch congrArg Prod.snd he⟩
        obtain ⟨rfl, hg⟩ := Prod.mk.inj he
        obtain rfl := Except.ok.inj hg
        exact ⟨rfl, rfl, hloads, rfl⟩
    | kept _ hunloadable =>
        refine ⟨fun y g he => (nomatch congrArg Prod.snd he), fun y e he => ?_⟩
        obtain ⟨rfl, -⟩ := Prod.mk.inj he
        exact ⟨rfl, rfl, rfl, hunloadable⟩
  · obtain ⟨hapart, houtcomes⟩ := (ScriptsApart.refl x).goOn moments
    exact ⟨houtcomes, hapart.slots, hapart.ledger⟩
  · refine ⟨fun y hduring => hduring.exists_told hx.lawful,
      fun es y source directory htold => htold.reload source directory, fun es y z hy hz => ?_⟩
    have halongside := Told.alongside (.here hx.lawful hs) hy hz
    obtain ⟨t, u, os, ht, hu, htu, hos, hos'⟩ := halongside.slots
    obtain ⟨timer, call, hreasons, rfl⟩ := Work.eq_of_timeless htu
    have hreason := congrArg (Option.map (·.reason)) hreasons
    simp only [Option.map_map] at hreason
    exact ⟨t, _, os, ht, hu, hos, hos', htu, rfl, hreason.symm, halongside.answer⟩

/-- A reload that gives a generation has succeeded. -/
theorem loaded_of_toOption {g : Nat} (h : x.reload.2.toOption = some g) :
    ∃ y, x.reload = (y, .ok g) := by
  generalize x.reload = reloaded at h
  obtain ⟨y, _ | g'⟩ := reloaded
  · exact nomatch h
  · obtain rfl := Option.some.inj h
    exact ⟨y, rfl⟩

/-- One that gives none has failed. -/
theorem failed_of_toOption (h : x.reload.2.toOption = none) :
    ∃ y e, x.reload = (y, .error e) := by
  generalize x.reload = reloaded at h
  obtain ⟨y, e | g⟩ := reloaded
  · exact ⟨y, e, rfl⟩
  · exact nomatch h

/-- A source of one script. -/
def oneScript (script : String) : Source := .memory [("main", script)] none

/-- A call plays `a`, sleeps and plays `c`, though a script that plays `b` comes into
force meanwhile, and one that cannot be compiled does not. -/
theorem reloads_during_call :
    ∃ (x y z : Exchange Unit) (e : Error) (s t : Slot Unit), Reach x ∧
      x.slots[0]? = some s ∧ s.isBusy = true ∧ x.generation = 1 ∧
      x.ledger.ordersOf 0 = [.execute "play" ["a"], .arm 1] ∧
      ({ x with source := oneScript "@main\n  play b\n", directory := .empty } :
        Exchange Unit).reload = (y, .ok 2) ∧ y.generation = 2 ∧
      ({ x with source := oneScript "@main\n  bogus\n", directory := .empty } :
        Exchange Unit).reload = (z, .error e) ∧ z.generation = 1 ∧
      (y.post 0 .timeout).1.slots[0]? = some t ∧ t.call.map (·.reason) = some "" ∧
      (y.post 0 .timeout).1.ledger.ordersOf 0 =
        [.execute "play" ["a"], .arm 1, .execute "play" ["c"]] ∧
      (x.goOn [.reload (oneScript "@main\n  play b\n") .empty, .post 0 .timeout,
        .reload (oneScript "@main\n  bogus\n") .empty, .post 0 .drop]).2.map (·.toOption) =
          [some (some .handled), some (some .handled)] := by
  let plan : Plan Unit :=
    { trialPlan "@main\n  play a\n  sleep 60\n  play c\n  sleep 60\n" with
      commands := [("play", 1)] }
  let called (x : Exchange Unit) := x.performAll [.allocate 0 ⟨none, "1", "2", none, none, none⟩]
  let changed (x : Exchange Unit) (script : String) :=
    ({ called x with source := oneScript script, directory := .empty } : Exchange Unit).reload
  let seen (x : Exchange Unit) := (x.slots[0]?).map fun s => (s.isBusy, s.call.map (·.reason))
  have hrun : (build trialConfig plan).toOption.map (fun x => decide <|
      (called x).generation = 1 ∧
      seen (called x) = some (true, some "") ∧
      (called x).ledger.ordersOf 0 = [.execute "play" ["a"], .arm 1] ∧
      (changed x "@main\n  play b\n").2.toOption = some 2 ∧
      (changed x "@main\n  bogus\n").2.toOption = none ∧
      seen ((called x).post 0 .timeout).1 = some (true, some "") ∧
      ((called x).post 0 .timeout).1.ledger.ordersOf 0 =
        [.execute "play" ["a"], .arm 1, .execute "play" ["c"]] ∧
      ((called x).goOn [.post 0 .timeout, .post 0 .drop]).2.map (·.toOption) =
        [some (some .handled), some (some .handled)]) = some true := by decide +kernel
  obtain ⟨x₀, hbuild, hobserved⟩ := exists_build hrun
  obtain ⟨hgeneration, hbefore, horders, hloads, hfails, hafter, horders', houtcomes⟩ :=
    of_decide_eq_true hobserved
  have hx : Reach (called x₀) := (Reach.build hbuild).performAll _
  obtain ⟨s, hs, hbusy⟩ := Option.map_eq_some_iff.1 hbefore
  obtain ⟨u, hu, hreason'⟩ := Option.map_eq_some_iff.1 hafter
  obtain ⟨y, hy⟩ := loaded_of_toOption hloads
  obtain ⟨z, e, hz⟩ := failed_of_toOption hfails
  obtain ⟨-, hgeneration', -⟩ := (reload_atomic_invisible.1 _ _ _).1 y 2 hy
  obtain ⟨hoffice, -⟩ := (reload_atomic_invisible.1 _ _ _).2 z e hz
  obtain ⟨hinvisible, -⟩ := reload_atomic_invisible.2.1 (called x₀)
    [.reload (oneScript "@main\n  play b\n") .empty, .post 0 .timeout,
      .reload (oneScript "@main\n  bogus\n") .empty, .post 0 .drop]
  obtain ⟨-, hreloads, hcourse⟩ := reload_atomic_invisible.2.2 hx hs
  have htold := hreloads [] (called x₀) (oneScript "@main\n  play b\n") .empty .start
  obtain ⟨t, u', os, ht, hu', hos, hos', -, -, hreason, -⟩ := hcourse [.timeout] _ _
    (.gets htold (.post .timeout)) (.gets .start (.post .timeout))
  obtain rfl := Option.some.inj (hu.symm.trans hu')
  rw [show ({ called x₀ with source := oneScript "@main\n  play b\n", directory := .empty } :
        Exchange Unit).reload.1 = y from congrArg Prod.fst hy] at ht hos
  refine ⟨_, y, z, e, s, t, hx, hs, congrArg Prod.fst hbusy, hgeneration, horders, hy, hgeneration',
    hz, ?_, ht, hreason.trans (congrArg Prod.snd hreason'), ?_, ?_⟩
  · exact (congrArg (·.scripts.generation) hoffice).trans hgeneration
  · exact (hos.trans hos'.symm).trans horders'
  · rw [hinvisible]
    exact houtcomes

end Exchange

end Switchboard
