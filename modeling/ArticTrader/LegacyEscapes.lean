import ArticTrader.LabelledRuns
import ArticTrader.LegacyRunner

/-!
When the legacy runner returns what it promises, and what escapes from it.
-/

namespace ArticTrader.LegacyEscapes

open ArticTrader.LabelledRuns (eq_of_iterate_fixed)
open ArticTrader.PythonText (Text)
open ArticTrader.LegacyRunner

variable {κ π ω : Type} (py : Python κ π ω) (args : Args ω)

/-- The user's code ends and the `with` block is left this way. -/
def Leaves (code : κ) (exit : Exit ω) : Prop :=
  ∃ n, (step_block py args)^[n] (enter_block py args code) = .left exit

def signal_of : Except Exn (Object ω) → Option Signal
  | .error _ => none
  | .ok sig => do
      let (score, reason) ← checked_shape sig
      let value ← to_float py score
      return (value, reason)

inductive Signals : Signal → Prop
  | builtin {builtin : List (Object ω) → Except Exn Signal} {signal : Signal}
      (hsource : args.strat_source = none) (hname : BUILTINS py args.strat_name = some builtin)
      (hsignal : builtin args.given = .ok signal) : Signals signal
  | compute {source : Text} {code : κ} {exit : Exit ω} {signal : Signal}
      (hsource : args.strat_source = some source) (hne : source ≠ [])
      (hcompile : py.compile_restricted source = .ok code) (hleaves : Leaves py args code exit)
      (hsignal : signal_of py exit.2 = some signal) : Signals signal

def fell_back (signal : Signal) (error : Text) : RunResult where
  signal
  strategy_name := "simple_momentum".toList
  fallback := true
  error := some error

/-- What `run` promises to return. -/
inductive Proper : RunResult → Prop
  | signal {signal : Signal} (h : Signals py args signal) :
      Proper { signal, strategy_name := args.strat_name, fallback := false, error := none }
  | fallback {signal : Signal} {error : Text} (hfails : ∀ signal, ¬ Signals py args signal)
      (hsignal : simple_momentum py args.given = .ok signal) (herror : error ≠ []) :
      Proper (fell_back signal error)

/-- The two last prices, if there are two and they differ, have texts. -/
def Tellable (prices : List Number) : Prop :=
  match prices.reverse with
  | last :: prev :: _ =>
      last.value.lt prev.value = true ∨ prev.value.lt last.value = true →
        prev.digits.length ≤ MAX_STR_DIGITS ∧ last.digits.length ≤ MAX_STR_DIGITS
  | _ => True

/-- An `Exception` that has a text, and one to tell if it is the whole error. -/
def Caught (exc : Exn) : Prop :=
  exc.exn_class ≠ .BaseException ∧
    ∃ text, exc.str = .ok text ∧ (exc.exn_class = .SandboxTimeout → text ≠ [])

/-- What has left the block is a signal, or a failure that `run` can tell with a
price history that still says what it said. -/
def Harmless (exit : Exit ω) : Prop :=
  (signal_of py exit.2).isSome ∨
    Tellable args.price_history ∧
      simple_momentum py exit.1 = simple_momentum py args.given ∧
      ∀ exc, exit.2 = .error exc → Caught exc

def Contained : Prop :=
  match args.strat_source with
  | none | some [] => Tellable args.price_history
  | some source =>
      match py.compile_restricted source with
      | .error exc => exc.exn_class = .SyntaxError ∧ Caught exc ∧ Tellable args.price_history
      | .ok code => ∃ exit, Leaves py args code exit ∧ Harmless py args exit

variable {py args}

theorem number_str_ok_iff (x : Number) :
    (∃ text, x.str = .ok text) ↔ x.digits.length ≤ MAX_STR_DIGITS := by
  cases x with
  | int z =>
      simp only [Number.str]
      split_ifs with h <;> simp [h]
  | float value text => simp [Number.str, Number.digits]

theorem bind_pure_ok_iff {α β : Type} {x : Except Exn α} (f : α → β) :
    (∃ b, (x >>= fun a => pure (f a)) = .ok b) ↔ ∃ a, x = .ok a := by
  cases x with
  | error exc =>
      constructor
      · rintro ⟨b, ⟨⟩⟩
      · rintro ⟨a, ⟨⟩⟩
  | ok a => exact ⟨fun _ => ⟨a, rfl⟩, fun _ => ⟨f a, rfl⟩⟩

theorem momentum_text_ok_iff (direction : Text) (prev last : Number) :
    (∃ text, momentum_text py direction (.number prev) (.number last) = .ok text) ↔
      prev.digits.length ≤ MAX_STR_DIGITS ∧ last.digits.length ≤ MAX_STR_DIGITS := by
  rw [← number_str_ok_iff, ← number_str_ok_iff]
  show (∃ text, (prev.str >>= fun _ => last.str >>= fun _ => pure _) = _) ↔ _
  cases prev.str with
  | error exc =>
      constructor
      · rintro ⟨text, ⟨⟩⟩
      · rintro ⟨⟨text, ⟨⟩⟩, -⟩
  | ok prev_text =>
      refine (bind_pure_ok_iff _).trans ?_
      exact (and_iff_right ⟨prev_text, rfl⟩).symm

theorem momentum_ok_iff (prev last : Number) :
    (∃ signal, momentum py (.number prev) (.number last) = .ok signal) ↔
      (last.value.lt prev.value = true ∨ prev.value.lt last.value = true →
        prev.digits.length ≤ MAX_STR_DIGITS ∧ last.digits.length ≤ MAX_STR_DIGITS) := by
  show (∃ signal, (if prev.value.lt last.value then _ else
    if last.value.lt prev.value then _ else _) = _) ↔ _
  split_ifs with hup hdown
  · rw [imp_iff_right (.inr hup)]
    exact (bind_pure_ok_iff _).trans (momentum_text_ok_iff _ prev last)
  · rw [imp_iff_right (.inl hdown)]
    exact (bind_pure_ok_iff _).trans (momentum_text_ok_iff _ prev last)
  · constructor
    · rintro - (h | h)
      · exact absurd h hdown
      · exact absurd h hup
    · rintro -
      exact ⟨_, rfl⟩

/-- On numbers `simple_momentum` fails only where it has to tell a price that
has too many digits. -/
theorem simple_momentum_given_iff (py : Python κ π ω) :
    (∃ signal, simple_momentum py args.given = .ok signal) ↔ Tellable args.price_history := by
  rw [simple_momentum, Tellable, Args.given, ← List.map_reverse]
  cases args.price_history.reverse with
  | nil => simp
  | cons last rest =>
      cases rest with
      | nil => simp
      | cons prev rest => exact momentum_ok_iff prev last

theorem fallback_ok_iff {price_history : List (Object ω)} {error : Text} {r : RunResult} :
    fallback py price_history error = .ok r ↔
      ∃ signal, simple_momentum py price_history = .ok signal ∧ r = fell_back signal error := by
  rw [fallback]
  cases simple_momentum py price_history with
  | error exc =>
      constructor
      · rintro ⟨⟩
      · rintro ⟨signal, ⟨⟩, -⟩
  | ok signal =>
      constructor
      · rintro ⟨⟩
        exact ⟨signal, rfl, rfl⟩
      · rintro ⟨_, ⟨⟩, rfl⟩
        rfl

def error_text (exc : Exn) (text : Text) : Text :=
  match exc.exn_class with
  | .SandboxTimeout => text
  | .SandboxViolation => "violation: ".toList ++ text
  | _ => "error: ".toList ++ exc.type_name ++ ": ".toList ++ text

theorem error_text_ne_nil_iff (exc : Exn) (text : Text) :
    error_text exc text ≠ [] ↔ (exc.exn_class = .SandboxTimeout → text ≠ []) := by
  unfold error_text
  cases exc.exn_class <;> simp

theorem handle_eq {price_history : List (Object ω)} {exc : Exn}
    (h : exc.exn_class ≠ .BaseException) :
    handle py price_history exc =
      exc.str >>= fun text => fallback py price_history (error_text exc text) := by
  unfold handle error_text
  cases hclass : exc.exn_class with
  | BaseException => exact absurd hclass h
  | _ => rfl

theorem handle_ok_iff {price_history : List (Object ω)} {exc : Exn} {r : RunResult} :
    handle py price_history exc = .ok r ↔
      exc.exn_class ≠ .BaseException ∧ ∃ text signal, exc.str = .ok text ∧
        simple_momentum py price_history = .ok signal ∧
        r = fell_back signal (error_text exc text) := by
  by_cases hbase : exc.exn_class = .BaseException
  · have hraises : handle py price_history exc = .error exc := by simp only [handle, hbase]
    rw [hraises]
    constructor
    · rintro ⟨⟩
    · rintro ⟨hne, -⟩
      exact absurd hbase hne
  · rw [handle_eq hbase, and_iff_right hbase]
    cases exc.str with
    | error raises =>
        constructor
        · rintro ⟨⟩
        · rintro ⟨text, signal, ⟨⟩, -⟩
    | ok text =>
        show fallback py price_history (error_text exc text) = .ok r ↔ _
        rw [fallback_ok_iff]
        constructor
        · rintro ⟨signal, hsignal, hr⟩
          exact ⟨text, signal, rfl, hsignal, hr⟩
        · rintro ⟨_, signal, ⟨⟩, hsignal, hr⟩
          exact ⟨signal, hsignal, hr⟩

theorem proper_fell_back_iff {signal : Signal} {error : Text}
    (hfails : ∀ signal, ¬ Signals py args signal) :
    Proper py args (fell_back signal error) ↔
      simple_momentum py args.given = .ok signal ∧ error ≠ [] := by
  constructor
  · intro h
    generalize hr : fell_back signal error = r at h
    cases h with
    | signal h => exact absurd h (hfails _)
    | fallback _ hsignal herror =>
        cases hr
        exact ⟨hsignal, herror⟩
  · rintro ⟨hsignal, herror⟩
    exact .fallback hfails hsignal herror

theorem fallback_proper_iff (error : Text) (hfails : ∀ signal, ¬ Signals py args signal)
    (herror : error ≠ []) :
    (∃ r, fallback py args.given error = .ok r ∧ Proper py args r) ↔
      Tellable args.price_history := by
  rw [← simple_momentum_given_iff py]
  constructor
  · rintro ⟨r, hr, -⟩
    obtain ⟨signal, hsignal, -⟩ := fallback_ok_iff.mp hr
    exact ⟨signal, hsignal⟩
  · rintro ⟨signal, hsignal⟩
    exact ⟨_, fallback_ok_iff.mpr ⟨signal, hsignal, rfl⟩,
      (proper_fell_back_iff hfails).mpr ⟨hsignal, herror⟩⟩

theorem handle_proper_iff {price_history : List (Object ω)} {exc : Exn}
    (hfails : ∀ signal, ¬ Signals py args signal) :
    (∃ r, handle py price_history exc = .ok r ∧ Proper py args r) ↔
      Tellable args.price_history ∧
        simple_momentum py price_history = simple_momentum py args.given ∧ Caught exc := by
  rw [← simple_momentum_given_iff py]
  constructor
  · rintro ⟨r, hr, hproper⟩
    obtain ⟨hbase, text, signal, htext, hsignal, rfl⟩ := handle_ok_iff.mp hr
    obtain ⟨hgiven, herror⟩ := (proper_fell_back_iff hfails).mp hproper
    exact ⟨⟨signal, hgiven⟩, hsignal.trans hgiven.symm, hbase, text, htext,
      (error_text_ne_nil_iff exc text).mp herror⟩
  · rintro ⟨⟨signal, hgiven⟩, hsame, hbase, text, htext, hne⟩
    refine ⟨fell_back signal (error_text exc text), ?_, ?_⟩
    · exact handle_ok_iff.mpr ⟨hbase, text, signal, htext, hsame.trans hgiven, rfl⟩
    · exact (proper_fell_back_iff hfails).mpr
        ⟨hgiven, (error_text_ne_nil_iff exc text).mpr hne⟩

theorem leave_block_of_signal {exit : Exit ω} {signal : Signal}
    (h : signal_of py exit.2 = some signal) :
    leave_block py args exit = .ok
      { signal, strategy_name := args.strat_name, fallback := false, error := none } := by
  obtain ⟨price_history, result⟩ := exit
  cases result with
  | error exc => cases h
  | ok sig =>
      simp only [signal_of, Option.bind_eq_bind, Option.bind_eq_some_iff] at h
      obtain ⟨⟨score, reason⟩, hshape, value, hvalue, hsignal⟩ := h
      cases hsignal
      simp only [leave_block, hshape, hvalue]

theorem caught_violation (text : Text) : Caught (violation text) :=
  ⟨nofun, text, rfl, nofun⟩

theorem leave_block_of_none (args : Args ω) {exit : Exit ω} (h : signal_of py exit.2 = none) :
    ∃ exc, leave_block py args exit = handle py exit.1 exc ∧
      (Caught exc ↔ ∀ exc, exit.2 = .error exc → Caught exc) := by
  obtain ⟨price_history, result⟩ := exit
  cases result with
  | error exc => exact ⟨exc, rfl, by simp⟩
  | ok sig =>
      cases hshape : checked_shape sig with
      | none =>
          refine ⟨violation ("strategy returned bad shape: ".toList ++ py.type_name sig), ?_, ?_⟩
          · simp only [leave_block, hshape]
          · exact iff_of_true (caught_violation _) nofun
      | some pair =>
          have hvalue : to_float py pair.1 = none := by
            cases hvalue : to_float py pair.1 with
            | none => rfl
            | some value => simp [signal_of, hshape, hvalue] at h
          refine ⟨too_large, ?_, ?_⟩
          · simp only [leave_block, hshape, hvalue]
          · exact iff_of_true ⟨nofun, _, rfl, nofun⟩ nofun

theorem leaves_unique {code : κ} {exit exit' : Exit ω} (h : Leaves py args code exit)
    (h' : Leaves py args code exit') : exit = exit' := by
  obtain ⟨n, hn⟩ := h
  obtain ⟨m, hm⟩ := h'
  cases eq_of_iterate_fixed hn rfl hm rfl
  rfl

/-- Once the user's code has ended, `run` keeps its promise exactly if what has
left the block is harmless. -/
theorem leave_block_proper_iff {source : Text} {code : κ} {exit : Exit ω}
    (hsource : args.strat_source = some source) (hne : source ≠ [])
    (hcompile : py.compile_restricted source = .ok code) (hleaves : Leaves py args code exit) :
    (∃ r, leave_block py args exit = .ok r ∧ Proper py args r) ↔ Harmless py args exit := by
  cases hsignal : signal_of py exit.2 with
  | some signal =>
      refine iff_of_true ⟨_, leave_block_of_signal hsignal, ?_⟩ (.inl (by rw [hsignal]; rfl))
      exact .signal (.compute hsource hne hcompile hleaves hsignal)
  | none =>
      have hfails : ∀ signal, ¬ Signals py args signal := by
        rintro signal (⟨hnone, -, -⟩ | ⟨hsource', -, hcompile', hleaves', hsignal'⟩)
        · cases hsource.symm.trans hnone
        · cases hsource.symm.trans hsource'
          cases hcompile.symm.trans hcompile'
          cases leaves_unique hleaves hleaves'
          cases hsignal.symm.trans hsignal'
      obtain ⟨exc, heq, hcaught⟩ := leave_block_of_none args hsignal
      rw [heq, handle_proper_iff hfails, hcaught, Harmless, hsignal]
      simp

theorem run_source_eq_some_iff {source : Text} {code : κ} {fuel : ℕ}
    {result : Except Exn RunResult} (hcompile : py.compile_restricted source = .ok code) :
    run_source py args source fuel = some result ↔
      ∃ exit, (step_block py args)^[fuel] (enter_block py args code) = .left exit ∧
        leave_block py args exit = result := by
  simp only [run_source, hcompile]
  cases (step_block py args)^[fuel] (enter_block py args code) with
  | left exit => simp
  | executing p alarm => simp
  | computing p alarm => simp

theorem signals_source {source : Text} {signal : Signal} (h : Signals py args signal)
    (hsource : args.strat_source = some source) :
    source ≠ [] ∧ ∃ code, py.compile_restricted source = .ok code := by
  cases h with
  | builtin hnone => cases hsource.symm.trans hnone
  | compute hsource' hne hcompile =>
      cases hsource.symm.trans hsource'
      exact ⟨hne, _, hcompile⟩

theorem compile_error_proper_iff {source : Text} {exc : Exn}
    (hsource : args.strat_source = some source)
    (hcompile : py.compile_restricted source = .error exc) :
    (∃ fuel r, run_source py args source fuel = some (.ok r) ∧ Proper py args r) ↔
      exc.exn_class = .SyntaxError ∧ Caught exc ∧ Tellable args.price_history := by
  have hfails : ∀ signal, ¬ Signals py args signal := by
    intro signal h
    obtain ⟨-, code, hcode⟩ := signals_source h hsource
    cases hcompile.symm.trans hcode
  by_cases hrefused : exc.exn_class = .SyntaxError
  · have hrun : ∀ fuel, run_source py args source fuel = some
        (exc.str >>= fun text => fallback py args.given ("compile: ".toList ++ text)) := by
      intro fuel
      simp only [run_source, hcompile, hrefused, if_true]
    simp only [hrun, Option.some.injEq]
    cases hstr : exc.str with
    | error raises =>
        constructor
        · rintro ⟨fuel, r, ⟨⟩, -⟩
        · rintro ⟨-, ⟨-, text, htext, -⟩, -⟩
          cases hstr.symm.trans htext
    | ok text =>
        have hcaught : Caught exc := by
          refine ⟨?_, text, hstr, ?_⟩ <;> rw [hrefused] <;> nofun
        rw [and_iff_right hrefused, and_iff_right hcaught,
          ← fallback_proper_iff ("compile: ".toList ++ text) hfails nofun]
        exact exists_const ℕ
  · have hrun : ∀ fuel, run_source py args source fuel = some (.error exc) := by
      intro fuel
      simp only [run_source, hcompile, hrefused, if_false]
    simp [hrun, hrefused]

theorem run_source_proper_iff {source : Text} (hsource : args.strat_source = some source)
    (hne : source ≠ []) :
    (∃ fuel r, run_source py args source fuel = some (.ok r) ∧ Proper py args r) ↔
      match py.compile_restricted source with
      | .error exc => exc.exn_class = .SyntaxError ∧ Caught exc ∧ Tellable args.price_history
      | .ok code => ∃ exit, Leaves py args code exit ∧ Harmless py args exit := by
  cases hcompile : py.compile_restricted source with
  | error exc => exact compile_error_proper_iff hsource hcompile
  | ok code =>
      constructor
      · rintro ⟨fuel, r, hrun, hproper⟩
        obtain ⟨exit, hexit, hleave⟩ := (run_source_eq_some_iff hcompile).mp hrun
        have hleaves : Leaves py args code exit := ⟨fuel, hexit⟩
        exact ⟨exit, hleaves,
          (leave_block_proper_iff hsource hne hcompile hleaves).mp ⟨r, hleave, hproper⟩⟩
      · rintro ⟨exit, hleaves, hharmless⟩
        obtain ⟨r, hleave, hproper⟩ :=
          (leave_block_proper_iff hsource hne hcompile hleaves).mpr hharmless
        obtain ⟨fuel, hexit⟩ := hleaves
        exact ⟨fuel, r, (run_source_eq_some_iff hcompile).mpr ⟨exit, hexit, hleave⟩, hproper⟩

theorem run_builtin_proper_iff {builtin : List (Object ω) → Except Exn Signal}
    (hsource : args.strat_source = none) (hname : BUILTINS py args.strat_name = some builtin) :
    (∃ r, run_builtin py args builtin = .ok r ∧ Proper py args r) ↔
      Tellable args.price_history := by
  have hmomentum : simple_momentum py = builtin := by
    unfold BUILTINS at hname
    split_ifs at hname
    exact Option.some.inj hname
  subst hmomentum
  rw [← simple_momentum_given_iff py, run_builtin]
  cases hsignal : simple_momentum py args.given with
  | ok signal =>
      refine iff_of_true ⟨_, rfl, ?_⟩ ⟨signal, rfl⟩
      exact .signal (.builtin hsource hname hsignal)
  | error exc =>
      refine iff_of_false ?_ nofun
      rintro ⟨r, hr, -⟩
      simp only at hr
      split_ifs at hr
      cases hstr : exc.str with
      | error raises =>
          rw [hstr] at hr
          cases hr
      | ok text =>
          rw [hstr] at hr
          obtain ⟨signal, hok, -⟩ := fallback_ok_iff.mp hr
          cases hsignal.symm.trans hok

theorem no_source_proper_iff (hfails : ∀ signal, ¬ Signals py args signal)
    (hrun : ∀ fuel, run py args fuel = some
      (fallback py args.given ("no source for ".toList ++ py.repr_str args.strat_name))) :
    (∃ fuel r, run py args fuel = some (.ok r) ∧ Proper py args r) ↔
      Tellable args.price_history := by
  rw [← fallback_proper_iff ("no source for ".toList ++ py.repr_str args.strat_name) hfails nofun]
  simp only [hrun, Option.some.injEq]
  exact exists_const ℕ

/-- The legacy runner keeps its promise exactly on contained inputs. -/
theorem run_proper_iff :
    (∃ fuel r, run py args fuel = some (.ok r) ∧ Proper py args r) ↔ Contained py args := by
  cases hsource : args.strat_source with
  | none =>
      simp only [Contained, hsource]
      cases hname : BUILTINS py args.strat_name with
      | some builtin =>
          rw [← run_builtin_proper_iff hsource hname]
          simp only [run, hsource, hname, Option.some.injEq]
          exact exists_const ℕ
      | none =>
          apply no_source_proper_iff
          · rintro signal (⟨-, hname', -⟩ | ⟨hsource', -, -, -, -⟩)
            · cases hname.symm.trans hname'
            · cases hsource.symm.trans hsource'
          · intro fuel
            simp only [run, hsource, hname]
  | some source =>
      cases source with
      | nil =>
          simp only [Contained, hsource]
          apply no_source_proper_iff
          · intro signal h
            exact (signals_source h hsource).1 rfl
          · intro fuel
            simp only [run, hsource]
      | cons c rest =>
          simp only [Contained, run, hsource]
          exact run_source_proper_iff hsource nofun

/-- `run` has one result at most, however long one waits for it. -/
theorem run_unique {fuel fuel' : ℕ} {result result' : Except Exn RunResult}
    (h : run py args fuel = some result) (h' : run py args fuel' = some result') :
    result = result' := by
  cases hsource : args.strat_source with
  | none =>
      cases hname : BUILTINS py args.strat_name <;> simp only [run, hsource, hname] at h h' <;>
        exact Option.some.inj (h.symm.trans h')
  | some source =>
      cases source with
      | nil =>
          simp only [run, hsource] at h h'
          exact Option.some.inj (h.symm.trans h')
      | cons c rest =>
          simp only [run, hsource] at h h'
          cases hcompile : py.compile_restricted (c :: rest) with
          | error exc =>
              simp only [run_source, hcompile] at h h'
              exact Option.some.inj (h.symm.trans h')
          | ok code =>
              obtain ⟨exit, hexit, rfl⟩ := (run_source_eq_some_iff hcompile).mp h
              obtain ⟨exit', hexit', rfl⟩ := (run_source_eq_some_iff hcompile).mp h'
              rw [leaves_unique ⟨fuel, hexit⟩ ⟨fuel', hexit'⟩]

def system_exit : Exn := .printable .BaseException "SystemExit".toList []

/-- The language on the program below; its one point is the start of the module
or, after the call, that of `compute`. -/
def quitting : Python Unit Bool Unit where
  main_thread := true
  steps_in s := 1000 * s
  compile_restricted _ := .ok ()
  exec _ := false
  step p := if p then .ended p (.error system_exit) else .ended p (.ok (.other ()))
  throw p exc := .ended p (.error exc)
  locs_compute _ := some (.other ())
  globs_compute _ := none
  truthy _ := true
  callable _ := true
  call _ _ _ := true
  price_history _ := [.number (.int 100), .number (.int 101)]
  gt _ _ := .ok false
  lt _ _ := .ok false
  text _ := .ok []
  type_name _ := "NoneType".toList
  repr_str s := [Char.ofNat 39] ++ s ++ [Char.ofNat 39]
  float_of_int z := some z

def quit_args : Args Unit where
  strat_name := "mine".toList
  strat_source := some
    "def compute(plan, price_history, candles):\n    raise SystemExit".toList
  plan := .other ()
  price_history := [.int 100, .int 101]
  candles := .other ()
  timeout_ms := 500

/-- A strategy that raises `SystemExit` has it leave `run`. -/
theorem system_exit_escapes :
    run quitting quit_args 2 = some (.error system_exit) ∧
      ∀ fuel r, run quitting quit_args fuel ≠ some (.ok r) := by
  have hrun : run quitting quit_args 2 = some (.error system_exit) := rfl
  refine ⟨hrun, ?_⟩
  intro fuel r hr
  cases run_unique hrun hr

end ArticTrader.LegacyEscapes
