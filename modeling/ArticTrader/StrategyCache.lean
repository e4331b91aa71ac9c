import ArticTrader.ConcurrentCalls
import ArticTrader.LabelledRuns
import ArticTrader.PythonText
import ArticTrader.Recency

/-!
The cache of parsed strategies: a look and an insertion under its lock, and the load of
the strategy between the two.
-/

namespace ArticTrader.StrategyCache

open ArticTrader.ConcurrentCalls
open ArticTrader.LabelledRuns
open ArticTrader.Multimaps (setitem)
open ArticTrader.PythonText (Text)
open ArticTrader.Recency

def MAX_ENTRIES : ℕ := 256

structure StrategyHandle (φ : Type) where
  on_tick : φ
  on_init : Option φ
  on_close : Option φ
  get_params : Option φ
  code_hash : Text
  deriving DecidableEq

/-- What loading a strategy uses: the validated syntax tree of a source, and its execution,
which leaves callables under their names and depends on more than the tree. -/
structure Env (κ φ β : Type) where
  sha256_hex : Text → Text
  parse_and_validate : Text → Except Text κ
  exec : κ → β → Except Text (Text → Option φ)

abbrev Cache (φ : Type) := List (Text × StrategyHandle φ)

inductive Phase (φ : Type) where
  | idle
  | loading (source : Text)
  | inserting (source : Text) (handle : StrategyHandle φ)
  | returned (source : Text) (handle : StrategyHandle φ)
  | rejected (source : Text) (error : Text)

def Phase.busy {φ : Type} : Phase φ → Bool
  | .loading _ => true
  | .inserting _ _ => true
  | _ => false

/-- A thread begins a call with its look at the cache, loads, and ends it with the
insertion. -/
inductive Event (ι β : Type*) where
  | call (i : ι) (source : Text)
  | load (i : ι) (occasion : β)
  | insert (i : ι)

def Event.thread {ι β : Type*} : Event ι β → ι
  | .call i _ => i
  | .load i _ => i
  | .insert i => i

section Code

variable {κ φ β : Type} (env : Env κ φ β)

def load_strategy (source : Text) (occasion : β) : Except Text (StrategyHandle φ) :=
  match env.parse_and_validate source with
  | .error exc => .error exc
  | .ok tree =>
      match env.exec tree occasion with
      | .error exc => .error ("load failed: ".toList ++ exc)
      | .ok namespace_ =>
          match namespace_ "on_tick".toList with
          | none => .error "strategy missing required `on_tick(ctx)` function".toList
          | some on_tick =>
              .ok
                { on_tick
                  on_init := namespace_ "on_init".toList
                  on_close := namespace_ "on_close".toList
                  get_params := namespace_ "get_params".toList
                  code_hash := env.sha256_hex source }

/-- The first section: the handle that is cached, and the cache behind the look. -/
def look (cache : Cache φ) (key : Text) : Option (StrategyHandle φ × Cache φ) :=
  (get cache key).map fun handle => (handle, move_to_end cache key)

/-- The second section. -/
def store (cache : Cache φ) (key : Text) (handle : StrategyHandle φ) : Cache φ :=
  evict MAX_ENTRIES (move_to_end (setitem cache key handle) key)

def get_or_load (cache : Cache φ) (source : Text) (occasion : β) :
    Except Text (StrategyHandle φ) × Cache φ :=
  match look cache (env.sha256_hex source) with
  | some (handle, cache) => (.ok handle, cache)
  | none =>
      match load_strategy env source occasion with
      | .error exc => (.error exc, cache)
      | .ok handle => (.ok handle, store cache (env.sha256_hex source) handle)

variable {ι : Type*} [DecidableEq ι]

def step (s : System ι (Cache φ) (Phase φ)) : Event ι β → Option (System ι (Cache φ) (Phase φ))
  | .call i source =>
      if (s.calls i).busy then none
      else
        match look s.shared (env.sha256_hex source) with
        | some (handle, cache) => some ((s.write cache).set i (.returned source handle))
        | none => some (s.set i (.loading source))
  | .load i occasion =>
      match s.calls i with
      | .loading source =>
          match load_strategy env source occasion with
          | .error exc => some (s.set i (.rejected source exc))
          | .ok handle => some (s.set i (.inserting source handle))
      | _ => none
  | .insert i =>
      match s.calls i with
      | .inserting source handle =>
          some ((s.write (store s.shared (env.sha256_hex source) handle)).set i
            (.returned source handle))
      | _ => none

def opening : System ι (Cache φ) (Phase φ) := ⟨[], fun _ => .idle⟩

end Code

/-- The sources that are asked for. -/
def sources {ι β : Type*} (es : List (Event ι β)) : Set Text :=
  {source | ∃ i, Event.call i source ∈ es}

section Invariant

variable {κ φ β : Type} (env : Env κ φ β) (C : Set Text)

def LoadedFrom (source : Text) (handle : StrategyHandle φ) : Prop :=
  ∃ occasion, load_strategy env source occasion = .ok handle

/-- A cache of handles that are loaded from sources of `C`, each under its hash. -/
structure Sound (cache : Cache φ) : Prop where
  nodup : (keys cache).Nodup
  size : cache.length ≤ MAX_ENTRIES
  entries : ∀ p ∈ cache, ∃ source ∈ C, p.1 = env.sha256_hex source ∧ LoadedFrom env source p.2

/-- What a call has in hand. -/
def Holds : Phase φ → Prop
  | .loading source => source ∈ C
  | .inserting source handle => source ∈ C ∧ LoadedFrom env source handle
  | .returned source handle => LoadedFrom env source handle
  | _ => True

structure Tidy {ι : Type*} (s : System ι (Cache φ) (Phase φ)) : Prop where
  cache : Sound env C s.shared
  calls : ∀ i, Holds env C (s.calls i)

variable {env C} {cache cache' : Cache φ} {source : Text} {handle : StrategyHandle φ}

theorem length_keys (cache : Cache φ) : (keys cache).length = cache.length := List.length_map _

/-- A hit gives a handle of the source that is asked for, and uses its key. -/
theorem Sound.look (h : Sound env C cache) (hsha : Set.InjOn env.sha256_hex C)
    (hsource : source ∈ C)
    (hlook : look cache (env.sha256_hex source) = some (handle, cache')) :
    Sound env C cache' ∧ LoadedFrom env source handle ∧
      keys cache' = (touch (env.sha256_hex source) (keys cache)).rtake MAX_ENTRIES := by
  obtain ⟨handle', hget, heq⟩ := Option.map_eq_some_iff.mp hlook
  obtain ⟨rfl, rfl⟩ := Prod.mk.inj heq
  have hmem := mem_of_get hget
  have hkeys := keys_move_to_end h.nodup hget
  have hkey : env.sha256_hex source ∈ keys cache := List.mem_map_of_mem hmem
  have hlength : (keys (move_to_end cache (env.sha256_hex source))).length = cache.length := by
    rw [hkeys, length_touch_of_mem h.nodup hkey, length_keys]
  refine ⟨⟨?_, ?_, ?_⟩, ?_, ?_⟩
  · rw [hkeys]
    exact nodup_touch h.nodup _
  · rw [← length_keys, hlength]
    exact h.size
  · intro p hp
    exact h.entries p (mem_move_to_end.mp hp)
  · obtain ⟨source', hsource', heq, hloaded⟩ := h.entries _ hmem
    rwa [hsha hsource hsource' heq]
  · rw [← hkeys, rtake_of_length_le (by rw [hlength]; exact h.size)]

theorem Sound.store (h : Sound env C cache) (hsource : source ∈ C)
    (hloaded : LoadedFrom env source handle) :
    Sound env C (store cache (env.sha256_hex source) handle) ∧
      keys (StrategyCache.store cache (env.sha256_hex source) handle) =
        (touch (env.sha256_hex source) (keys cache)).rtake MAX_ENTRIES := by
  have hkeys : keys (StrategyCache.store cache (env.sha256_hex source) handle) =
      (touch (env.sha256_hex source) (keys cache)).rtake MAX_ENTRIES := by
    rw [StrategyCache.store, evict_eq_rtake, keys_rtake, keys_used h.nodup]
  refine ⟨⟨?_, ?_, ?_⟩, hkeys⟩
  · rw [hkeys]
    exact (nodup_touch h.nodup _).sublist (List.drop_sublist _ _)
  · rw [← length_keys, hkeys, List.rtake, List.length_drop]
    omega
  · intro p hp
    rw [StrategyCache.store, evict_eq_rtake] at hp
    rcases (mem_used h.nodup).mp (List.mem_of_mem_drop hp) with ⟨hmem, -⟩ | rfl
    · exact h.entries p hmem
    · exact ⟨source, hsource, rfl, hloaded⟩

variable {ι : Type*} {s s' : System ι (Cache φ) (Phase φ)} {e : Event ι β}

theorem sound_nil : Sound env C ([] : Cache φ) :=
  ⟨List.nodup_nil, Nat.zero_le _, fun _ hp => absurd hp List.not_mem_nil⟩

theorem tidy_opening : Tidy env C (opening : System ι (Cache φ) (Phase φ)) :=
  ⟨sound_nil, fun _ => trivial⟩

theorem Tidy.write (h : Tidy env C s) (hcache : Sound env C cache) : Tidy env C (s.write cache) :=
  ⟨hcache, h.calls⟩

variable [DecidableEq ι]

theorem Tidy.set (h : Tidy env C s) {i : ι} {p : Phase φ} (hp : Holds env C p) :
    Tidy env C (s.set i p) :=
  ⟨h.cache, System.forall_set (P := fun _ p => Holds env C p) hp fun j _ => h.calls j⟩

/-- What a step can do. -/
inductive Stepped (env : Env κ φ β) (s : System ι (Cache φ) (Phase φ)) :
    Event ι β → System ι (Cache φ) (Phase φ) → Prop where
  | hit {i : ι} {source : Text} {handle : StrategyHandle φ} {cache : Cache φ}
      (look_eq : look s.shared (env.sha256_hex source) = some (handle, cache)) :
      Stepped env s (.call i source) ((s.write cache).set i (.returned source handle))
  | miss {i : ι} {source : Text} : Stepped env s (.call i source) (s.set i (.loading source))
  | rejected {i : ι} {occasion : β} {source exc : Text} :
      Stepped env s (.load i occasion) (s.set i (.rejected source exc))
  | loaded {i : ι} {occasion : β} {source : Text} {handle : StrategyHandle φ}
      (calls_eq : s.calls i = .loading source)
      (load_eq : load_strategy env source occasion = .ok handle) :
      Stepped env s (.load i occasion) (s.set i (.inserting source handle))
  | inserted {i : ι} {source : Text} {handle : StrategyHandle φ}
      (calls_eq : s.calls i = .inserting source handle) :
      Stepped env s (.insert i)
        ((s.write (store s.shared (env.sha256_hex source) handle)).set i (.returned source handle))

theorem stepped_of_step (hstep : step env s e = some s') : Stepped env s e s' := by
  rcases e with ⟨i, source⟩ | ⟨i, occasion⟩ | ⟨i⟩
  · simp only [step] at hstep
    split_ifs at hstep
    split at hstep
    next handle cache hlook => exact Option.some.inj hstep ▸ .hit hlook
    next => exact Option.some.inj hstep ▸ .miss
  · simp only [step] at hstep
    split at hstep
    next source hcall =>
        split at hstep
        next => exact Option.some.inj hstep ▸ .rejected
        next handle hload => exact Option.some.inj hstep ▸ .loaded hcall hload
    next => simp at hstep
  · simp only [step] at hstep
    split at hstep
    next source handle hcall => exact Option.some.inj hstep ▸ .inserted hcall
    next => simp at hstep

theorem tidy_step (hsha : Set.InjOn env.sha256_hex C) (h : Tidy env C s)
    (he : ∀ i source, e = .call i source → source ∈ C) (hstep : step env s e = some s') :
    Tidy env C s' := by
  rcases stepped_of_step hstep with hlook | _ | _ | @⟨i, _, _, _, hcall, hload⟩ | @⟨i, _, _, hcall⟩
  · obtain ⟨hcache, hloaded, -⟩ := h.cache.look hsha (he _ _ rfl) hlook
    exact (h.write hcache).set hloaded
  · exact h.set (he _ _ rfl)
  · exact h.set trivial
  · have hholds := h.calls i
    rw [hcall] at hholds
    exact h.set ⟨hholds, _, hload⟩
  · have hholds := h.calls i
    rw [hcall] at hholds
    exact (h.write (h.cache.store hholds.1 hholds.2).1).set hholds.2

theorem tidy_run {es : List (Event ι β)} (hsha : Set.InjOn env.sha256_hex (sources es))
    (hrun : run (step env) opening es = some s) : Tidy env (sources es) s := by
  have hall : AllSteps (step env) (fun _ e => ∀ i source, e = .call i source → source ∈ sources es)
      opening es := by
    apply allSteps_of_forall_mem
    rintro e he i source rfl
    exact ⟨i, he⟩
  exact run_invariant_of_allSteps (fun s e s' hs he => tidy_step hsha hs he) hrun hall tidy_opening

/-- A step leaves the cache as it is unless its call returns with it. -/
theorem shared_of_not_returned (hstep : step env s e = some s')
    (hnot : ∀ source handle, s'.calls e.thread ≠ .returned source handle) :
    s'.shared = s.shared := by
  rcases stepped_of_step hstep with _ | _ | _ | _ | _
  · exact absurd (System.set_self _ _ _) (hnot _ _)
  · rfl
  · rfl
  · rfl
  · exact absurd (System.set_self _ _ _) (hnot _ _)

/-- A call that is alone takes its steps one behind the other. -/
theorem get_or_load_run (i : ι) (hidle : (s.calls i).busy = false) (source : Text)
    (occasion : β) :
    ∃ es s', run (step env) s es = some s' ∧ (∀ e ∈ es, e.thread = i) ∧
      s'.shared = (get_or_load env s.shared source occasion).2 ∧
      (∀ handle, (get_or_load env s.shared source occasion).1 = .ok handle →
        s'.calls i = .returned source handle) ∧
      ∀ exc, (get_or_load env s.shared source occasion).1 = .error exc →
        s'.calls i = .rejected source exc := by
  have hcall : step env s (.call i source) =
      match look s.shared (env.sha256_hex source) with
      | some (handle, cache) => some ((s.write cache).set i (.returned source handle))
      | none => some (s.set i (.loading source)) := by
    simp [step, hidle]
  rcases hlook : look s.shared (env.sha256_hex source) with _ | ⟨handle, cache⟩
  · rw [hlook] at hcall
    have hload : step env (s.set i (.loading source)) (.load i occasion) =
        match load_strategy env source occasion with
        | .error exc => some ((s.set i (.loading source)).set i (.rejected source exc))
        | .ok handle => some ((s.set i (.loading source)).set i (.inserting source handle)) := by
      simp [step]
    rcases hloaded : load_strategy env source occasion with exc | handle
    · rw [hloaded] at hload
      refine ⟨[.call i source, .load i occasion], _,
        run_cons_iff.mpr ⟨_, hcall, run_cons_iff.mpr ⟨_, hload, rfl⟩⟩, ?_, ?_, ?_, ?_⟩
      · simp [Event.thread]
      · simp [get_or_load, hlook, hloaded]
      · simp [get_or_load, hlook, hloaded]
      · simp [get_or_load, hlook, hloaded]
    · rw [hloaded] at hload
      have hinsert : step env ((s.set i (.loading source)).set i (.inserting source handle))
          (.insert i) = some ((((s.set i (.loading source)).set i
            (.inserting source handle)).write
              (store s.shared (env.sha256_hex source) handle)).set i (.returned source handle)) := by
        simp [step]
      refine ⟨[.call i source, .load i occasion, .insert i], _,
        run_cons_iff.mpr ⟨_, hcall, run_cons_iff.mpr ⟨_, hload, run_cons_iff.mpr
          ⟨_, hinsert, rfl⟩⟩⟩, ?_, ?_, ?_, ?_⟩
      · simp [Event.thread]
      · simp [get_or_load, hlook, hloaded]
      · simp [get_or_load, hlook, hloaded]
      · simp [get_or_load, hlook, hloaded]
  · rw [hlook] at hcall
    refine ⟨[.call i source], _, run_cons_iff.mpr ⟨_, hcall, rfl⟩, ?_, ?_, ?_, ?_⟩
    · simp [Event.thread]
    · simp [get_or_load, hlook]
    · simp [get_or_load, hlook]
    · simp [get_or_load, hlook]

end Invariant

section Sequence

variable {κ φ β : Type} (env : Env κ φ β)

/-- A call after the others, with the sources for which a call has returned. -/
def ask (u : Cache φ × List Text) (r : Text × β) : Cache φ × List Text :=
  match get_or_load env u.1 r.1 r.2 with
  | (.ok _, cache) => (cache, u.2 ++ [r.1])
  | (.error _, cache) => (cache, u.2)

def sequence (rs : List (Text × β)) : Cache φ × List Text := rs.foldl (ask env) ([], [])

/-- The cache holds the sources that have last been asked for with success. -/
structure Recent (C : Set Text) (u : Cache φ × List Text) : Prop where
  sound : Sound env C u.1
  asked : ∀ source ∈ u.2, source ∈ C
  keys : keys u.1 = recent MAX_ENTRIES (u.2.map env.sha256_hex)

variable {env} {C : Set Text} {u : Cache φ × List Text}

theorem Recent.returned (h : Recent env C u) {cache : Cache φ} {source : Text}
    (hsource : source ∈ C) (hsound : Sound env C cache)
    (hkeys : Recency.keys cache =
      (touch (env.sha256_hex source) (Recency.keys u.1)).rtake MAX_ENTRIES) :
    Recent env C (cache, u.2 ++ [source]) := by
  refine ⟨hsound, ?_, ?_⟩
  · intro source' hmem
    rcases List.mem_append.mp hmem with hmem | hmem
    · exact h.asked source' hmem
    · rwa [List.mem_singleton.mp hmem]
  · rw [hkeys, h.keys, List.map_append, List.map_singleton, recent_concat]

theorem recent_ask (hsha : Set.InjOn env.sha256_hex C) (h : Recent env C u) {r : Text × β}
    (hr : r.1 ∈ C) : Recent env C (ask env u r) := by
  unfold ask get_or_load
  rcases hlook : look u.1 (env.sha256_hex r.1) with _ | ⟨handle, cache⟩
  · rcases hload : load_strategy env r.1 r.2 with exc | handle
    · exact h
    · obtain ⟨hsound, hkeys⟩ := h.sound.store hr ⟨r.2, hload⟩
      exact h.returned hr hsound hkeys
  · obtain ⟨hsound, -, hkeys⟩ := h.sound.look hsha hr hlook
    exact h.returned hr hsound hkeys

theorem recent_sequence (hsha : Set.InjOn env.sha256_hex C) {rs : List (Text × β)}
    (hrs : ∀ r ∈ rs, r.1 ∈ C) : Recent env C (sequence env rs) := by
  have hrun := run_total (ask env) ([], []) rs
  refine run_invariant_of_allSteps (P := Recent env C) (C := fun _ r => r.1 ∈ C) ?_ hrun
    (allSteps_of_forall_mem hrs _) ?_
  · intro u r u' hu hr hstep
    exact Option.some.inj hstep ▸ recent_ask hsha hu hr
  · exact ⟨sound_nil, fun _ hmem => absurd hmem List.not_mem_nil, by simp [Recency.keys, recent]⟩

theorem keys_sequence {rs : List (Text × β)}
    (hsha : Set.InjOn env.sha256_hex {source | source ∈ rs.map (·.1)}) :
    Recency.keys (sequence env rs).1 =
      (recent MAX_ENTRIES (sequence env rs).2).map env.sha256_hex := by
  have h : Recent env {source | source ∈ rs.map (·.1)} (sequence env rs) :=
    recent_sequence hsha fun r hr => List.mem_map_of_mem hr
  rw [h.keys, recent_map]
  exact hsha.mono h.asked

end Sequence

/-- A cache whose lock is held for its sections only keeps what a cache owes its callers,
and used by one caller it is a least-recently-used map. -/
theorem cache_refines_lru {κ φ β : Type} {ι : Type*} [DecidableEq ι] (env : Env κ φ β) :
    (∀ (es : List (Event ι β)) (s : System ι (Cache φ) (Phase φ)),
      Set.InjOn env.sha256_hex (sources es) → run (step env) opening es = some s →
        (∀ i source handle, s.calls i = .returned source handle → LoadedFrom env source handle) ∧
          s.shared.length ≤ MAX_ENTRIES) ∧
      (∀ (s s' : System ι (Cache φ) (Phase φ)) (e : Event ι β), step env s e = some s' →
        (∀ source handle, s'.calls e.thread ≠ .returned source handle) → s'.shared = s.shared) ∧
      ∀ rs : List (Text × β), Set.InjOn env.sha256_hex {source | source ∈ rs.map (·.1)} →
        keys (sequence env rs).1 =
          (recent MAX_ENTRIES (sequence env rs).2).map env.sha256_hex := by
  refine ⟨?_, fun s s' e => shared_of_not_returned, fun rs => keys_sequence⟩
  intro es s hsha hrun
  have h := tidy_run hsha hrun
  refine ⟨?_, h.cache.size⟩
  intro i source handle hcall
  have hholds := h.calls i
  rwa [hcall] at hholds

/-- Strategies are their sources, every source but the empty one loads, and its callables
are the occasions of their loads. -/
def sample : Env Text ℕ ℕ where
  sha256_hex source := source
  parse_and_validate source := if source = [] then .error "empty".toList else .ok source
  exec _ occasion := .ok fun _ => some occasion

/-- Two threads load a source at once, and a third asks for none. -/
def overlapping : List (Event ℕ ℕ) :=
  [.call 0 "a".toList, .call 1 "a".toList, .call 2 [], .load 1 7, .load 0 8, .insert 0, .load 2 9,
    .insert 1]

theorem cache_refines_lru_overlapping :
    ∃ s, run (step sample) opening overlapping = some s ∧
      (∀ i source handle, s.calls i = .returned source handle →
        LoadedFrom sample source handle) ∧
      s.shared.length ≤ MAX_ENTRIES ∧
      keys (sequence sample [("a".toList, 1), ([], 2), ("b".toList, 3), ("a".toList, 4)]).1 =
        (recent MAX_ENTRIES
          (sequence sample [("a".toList, 1), ([], 2), ("b".toList, 3), ("a".toList, 4)]).2).map
            sample.sha256_hex := by
  obtain ⟨hruns, -, hsequence⟩ := cache_refines_lru (ι := ℕ) sample
  obtain ⟨hloaded, hsize⟩ := hruns overlapping _ Function.injective_id.injOn rfl
  exact ⟨_, rfl, hloaded, hsize, hsequence _ Function.injective_id.injOn⟩

end ArticTrader.StrategyCache
