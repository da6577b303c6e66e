import FrameScript.Proofs.Compiler.Walk
import FrameScript.Proofs.Result
import FrameScript.Proofs.Simulation.Partition
import FrameScript.Proofs.Syntax.RoundTrip
import FrameScript.Runner

/-!
# What a run reports

A run executes one frame after the other, up to the first one that has a fault, is the last one or
reaches the tick limit. Log lines apart, it writes what these frames show, and nothing else.
-/

namespace FrameScript

namespace Runner

/-! ### Console lines among log lines -/

/-- What a run writes: a line of the console, or an event that is logged if the filter lets it
pass. -/
inductive Written where
  | console (line : String)
  | log (entry : Log.Entry)

/-- The line of what is written, if there is one under a filter. -/
def Written.seen? (filter : Log.Filter) : Written → Option String
  | .console line => some line
  | .log entry => if filter.passes entry then some entry.text else none

/-- The line of the console, if it is one. -/
def Written.console? : Written → Option String
  | .console line => some line
  | .log _ => none

/-- Lines that are those of a console, each once and in order, with log lines among them. Under
every filter they are the same but for the events that do not pass. -/
def Carries (lines : Log.Filter → List String) (console : List String) : Prop :=
  ∃ items : List Written, items.filterMap Written.console? = console ∧
    ∀ filter, lines filter = items.filterMap (Written.seen? filter)

namespace Carries

variable {lines lines' : Log.Filter → List String} {shown shown' : List String}

/-- Console lines carry themselves. -/
theorem console (shown : List String) : Carries (fun _ => shown) shown :=
  ⟨shown.map .console, by simp [List.filterMap_map, Function.comp_def, Written.console?],
    fun filter => by simp [List.filterMap_map, Function.comp_def, Written.seen?]⟩

/-- Log lines carry nothing. -/
theorem log (entries : List Log.Entry) : Carries (fun filter => filter.lines entries) [] := by
  refine ⟨entries.map .log, by simp [List.filterMap_map, Function.comp_def, Written.console?],
    fun filter => ?_⟩
  change (entries.filter filter.passes).map Log.Entry.text = _
  rw [List.filterMap_map, ← List.filterMap_eq_map, List.filterMap_filter]
  rfl

/-- What is written in succession carries both consoles in order. -/
theorem append (h : Carries lines shown) (h' : Carries lines' shown') :
    Carries (fun filter => lines filter ++ lines' filter) (shown ++ shown') := by
  obtain ⟨items, hshown, hlines⟩ := h
  obtain ⟨items', hshown', hlines'⟩ := h'
  refine ⟨items ++ items', ?_, fun filter => ?_⟩
  · rw [List.filterMap_append, hshown, hshown']
  · dsimp only
    rw [List.filterMap_append, hlines, hlines']

/-- Log lines at the end add nothing to the console. -/
theorem append_log (h : Carries lines shown) (entries : List Log.Entry) :
    Carries (fun filter => lines filter ++ filter.lines entries) shown := by
  have happend := h.append (log entries)
  rwa [List.append_nil] at happend

end Carries

end Runner

/-! ### How a run ends with a frame -/

/-- A run with a tick limit ends with a frame of a number: the frame has a fault, or is the last
one, or there is a limit and the number reaches it. -/
def Frame.Stops (frame : Frame) (limit number : Nat) : Prop :=
  frame.fault ≠ none ∨ frame.isLast = true ∨ limit ≠ 0 ∧ limit ≤ number

namespace Runner

variable {config : Config} {frame : Frame} {number : Nat}

/-- A run goes on behind a frame exactly if the frame does not stop it. -/
theorem endingOf?_eq_none_iff :
    endingOf? config frame number = none ↔ ¬frame.Stops config.maxTicks number := by
  unfold endingOf? Frame.Stops
  cases frame.fault with
  | some fault => simp
  | none =>
    dsimp only
    split
    · next hlast => simp [hlast]
    · next hlast =>
      split
      · next hlimit => simp [hlimit]
      · next hlimit => simp [hlast, hlimit]

/-- A run that ends with a fault, and no other, ends with an error. -/
theorem code_ne_zero_iff {entry : Log.Entry} {ending : Ending}
    (h : endingOf? config frame number = some (entry, ending)) :
    ending.code ≠ 0 ↔ frame.fault ≠ none := by
  unfold endingOf? at h
  cases hfault : frame.fault with
  | some fault =>
    rw [hfault] at h
    cases h
    simp [Ending.code]
  | none =>
    have hsuccess : ending = .success := by
      simp only [hfault] at h
      split at h
      · cases h
        rfl
      · split at h
        · cases h
          rfl
        · cases h
    simp [hsuccess, Ending.code]

/-! ### Reporting frames -/

/-- What a run writes from a frame that was just played, up to a number of frames after it, and how
the run ends if it does by then. The number bounds the frames as `fuel` bounds the steps of each. -/
def watchFrom (ready : Ready) (fuel : Nat) :
    Nat → Frame × Host → Option (List String × Option Ending)
  | 0, played => some (report ready played)
  | n + 1, played =>
    match report ready played with
    | (lines, some ending) => some (lines, some ending)
    | (lines, none) => do
      let next ← played.2.tick fuel
      let (more, ending?) ← watchFrom ready fuel n next
      return (lines ++ more, ending?)

variable {ready : Ready} {played : Frame × Host} {fuel n m : Nat} {f : Function}

/-- How a run ends behind a frame is told by the frame and its number. -/
theorem report_snd : (report ready played).2 =
    (endingOf? ready.config played.1 played.2.ticks).map Prod.snd := by
  rw [report]
  cases endingOf? ready.config played.1 played.2.ticks <;> rfl

/-- The report of a frame lets the run go on exactly if the frame does not stop it. -/
theorem report_snd_eq_none_iff : (report ready played).2 = none ↔
    ¬played.1.Stops ready.config.maxTicks played.2.ticks := by
  rw [report_snd, Option.map_eq_none_iff, endingOf?_eq_none_iff]

/-- A frame is reported with its console lines. -/
theorem frameLines_carries (frame : Frame) (ip : Nat) :
    Carries (fun filter => frameLines filter frame ip) frame.console :=
  ((Carries.log (abortEntries frame ip)).append (.console frame.console)).append_log _

/-- The report of a frame carries its console lines. -/
theorem report_carries (config : Config) (f : Function) (played : Frame × Host) :
    Carries (fun filter => (report ⟨config, filter, f⟩ played).1) played.1.console := by
  obtain ⟨frame, host⟩ := played
  have hframe := frameLines_carries frame host.machine.ip
  cases hending : endingOf? config frame host.ticks with
  | none => simpa only [report, hending] using hframe
  | some ending => simpa only [report, hending] using hframe.append_log [ending.1]

/-- Nothing is played behind a frame that stops the run. -/
theorem watchFrom_of_stops (h : played.1.Stops ready.config.maxTicks played.2.ticks) (n : Nat) :
    watchFrom ready fuel n played = some (report ready played) := by
  cases n with
  | zero => rfl
  | succ n =>
    obtain ⟨ending, hending⟩ :=
      Option.ne_none_iff_exists'.mp (mt report_snd_eq_none_iff.mp (not_not_intro h))
    rw [watchFrom]
    cases hreport : report ready played with
    | mk lines ending? =>
      rw [hreport] at hending
      cases hending
      rfl

/-- Behind a frame that does not stop the run, the next one is played and watched. -/
theorem watchFrom_succ (h : ¬played.1.Stops ready.config.maxTicks played.2.ticks) (n : Nat) :
    watchFrom ready fuel (n + 1) played = (played.2.tick fuel).bind fun next =>
      (watchFrom ready fuel n next).map fun seen =>
        ((report ready played).1 ++ seen.1, seen.2) := by
  have hgoes := report_snd_eq_none_iff.mpr h
  rw [watchFrom]
  cases hreport : report ready played with
  | mk lines ending? =>
    rw [hreport] at hgoes
    cases hgoes
    simp only [Option.map_eq_bind]
    rfl

/-- Playing to the end is watching until the run has ended. -/
theorem playFrom_succ : playFrom ready fuel (n + 1) played =
    (watchFrom ready fuel n played).bind fun seen => seen.2.map (seen.1, ·) := by
  induction n generalizing played with
  | zero =>
    rw [playFrom, watchFrom]
    obtain ⟨lines, _ | ending⟩ := report ready played
    · cases played.2.tick fuel <;> rfl
    · rfl
  | succ n ih =>
    rw [playFrom, watchFrom]
    obtain ⟨lines, _ | ending⟩ := report ready played
    · dsimp only [bind, pure]
      cases played.2.tick fuel with
      | none => rfl
      | some next =>
        simp only [Option.bind_some, ih]
        cases watchFrom ready fuel n next with
        | none => rfl
        | some seen => obtain ⟨more, _ | ending⟩ := seen <;> rfl
    · rfl

/-- Nothing follows the end of a run. -/
theorem watchFrom_of_le {seen : List String × Option Ending}
    (h : watchFrom ready fuel n played = some seen) (hended : seen.2 ≠ none) (hle : n ≤ m) :
    watchFrom ready fuel m played = some seen := by
  induction n generalizing played seen m with
  | zero =>
    obtain rfl := Option.some.inj h
    exact watchFrom_of_stops (not_not.mp (mt report_snd_eq_none_iff.mpr hended)) m
  | succ n ih =>
    obtain ⟨m, rfl⟩ : ∃ k, m = k + 1 := ⟨m - 1, by omega⟩
    by_cases hstops : played.1.Stops ready.config.maxTicks played.2.ticks
    · rwa [watchFrom_of_stops hstops] at h ⊢
    · rw [watchFrom_succ hstops] at h ⊢
      obtain ⟨next, htick, hmore⟩ := Option.bind_eq_some_iff.mp h
      obtain ⟨later, hlater, rfl⟩ := Option.map_eq_some_iff.mp hmore
      rw [htick, Option.bind_some, ih hlater hended (Nat.le_of_succ_le_succ hle)]
      rfl

/-! ### The frames of a run -/

/-- The run does not end with the first frames of a list, the first one of which has a number. -/
def GoesOn (limit number n : Nat) (frames : List Frame) : Prop :=
  ∀ k < n, ∀ frame, frames[k]? = some frame → ¬frame.Stops limit (number + k)

variable {first frame : Frame} {frames : List Frame} {limit number : Nat} {last host : Host}
  {next : Frame × Host}

/-- A run goes on behind a list of frames if it does so behind the first and behind the others. -/
theorem goesOn_cons : GoesOn limit number (n + 1) (first :: frames) ↔
    ¬first.Stops limit number ∧ GoesOn limit (number + 1) n frames := by
  constructor
  · intro h
    refine ⟨h 0 n.succ_pos first rfl, fun k hk frame hframe => ?_⟩
    have hlater := h (k + 1) (Nat.succ_lt_succ hk) frame hframe
    rwa [Nat.add_right_comm, Nat.add_assoc]
  · rintro ⟨hfirst, hrest⟩ (_ | k) hk frame hframe
    · cases hframe
      exact hfirst
    · rw [Nat.add_comm k, ← Nat.add_assoc]
      exact hrest k (Nat.lt_of_succ_lt_succ hk) frame hframe

/-- A tick is counted. -/
theorem ticks_of_tick (h : host.tick fuel = some next) : next.2.ticks = host.ticks + 1 := by
  obtain ⟨stop, -, rfl⟩ := Option.map_eq_some_iff.mp h
  rfl

/-- While no frame ends the run, all of them are reported, with their console lines in order. -/
theorem exists_watchFrom (f : Function) (hfollow : Host.follow fuel n played = some (frames, last))
    (hgoes : GoesOn config.maxTicks played.2.ticks n frames) :
    ∃ frame lines, frames[n]? = some frame ∧ Carries lines (frames.flatMap (·.console)) ∧
      ∀ filter, watchFrom ⟨config, filter, f⟩ fuel n played = some (lines filter,
        (endingOf? config frame (played.2.ticks + n)).map Prod.snd) := by
  induction n generalizing played frames with
  | zero =>
    cases hfollow
    refine ⟨played.1, fun filter => (report ⟨config, filter, f⟩ played).1, rfl, ?_,
      fun filter => ?_⟩
    · rw [List.flatMap_singleton]
      exact report_carries config f played
    · have hending : (report ⟨config, filter, f⟩ played).2 = _ := report_snd
      rw [watchFrom, Nat.add_zero, ← hending]
  | succ n ih =>
    obtain ⟨next, rest, htick, hrest, rfl⟩ := Host.follow_succ.mp hfollow
    obtain ⟨hfirst, hlater⟩ := goesOn_cons.mp hgoes
    -- the number of the first frame moves along, so that the limit stays with the same frame
    have hticks := ticks_of_tick htick
    rw [← hticks] at hlater
    obtain ⟨frame, lines, hframe, hcarries, hwatch⟩ := ih hrest hlater
    refine ⟨frame, fun filter => (report ⟨config, filter, f⟩ played).1 ++ lines filter, hframe,
      ?_, fun filter => ?_⟩
    · exact (report_carries config f played).append hcarries
    · rw [watchFrom_succ hfirst, htick, Option.bind_some, hwatch, hticks]
      rw [Nat.add_right_comm, Nat.add_assoc]
      rfl

/-- If a run has ended, it was with the first frame with which it could. -/
theorem exists_stops_of_watchFrom {seen : List String × Option Ending}
    (h : watchFrom ready fuel n played = some seen) (hended : seen.2 ≠ none) :
    ∃ k ≤ n, ∃ frames last frame, Host.follow fuel k played = some (frames, last) ∧
      GoesOn ready.config.maxTicks played.2.ticks k frames ∧ frames[k]? = some frame ∧
      frame.Stops ready.config.maxTicks (played.2.ticks + k) := by
  induction n generalizing played seen with
  | zero =>
    obtain rfl := Option.some.inj h
    refine ⟨0, Nat.le_refl 0, _, _, played.1, rfl, ?_, rfl, ?_⟩
    · intro k hk
      cases hk
    · exact not_not.mp (mt report_snd_eq_none_iff.mpr hended)
  | succ n ih =>
    by_cases hstops : played.1.Stops ready.config.maxTicks played.2.ticks
    · refine ⟨0, Nat.zero_le _, _, _, played.1, rfl, ?_, rfl, hstops⟩
      intro k hk
      cases hk
    · rw [watchFrom_succ hstops] at h
      obtain ⟨next, htick, hmore⟩ := Option.bind_eq_some_iff.mp h
      obtain ⟨later, hlater, rfl⟩ := Option.map_eq_some_iff.mp hmore
      obtain ⟨k, hk, frames, last, frame, hfollow, hgoes, hframe, hframe_stops⟩ :=
        ih hlater hended
      rw [ticks_of_tick htick] at hgoes hframe_stops
      refine ⟨k + 1, Nat.succ_le_succ hk, played.1 :: frames, last, frame,
        Host.follow_succ.mpr ⟨next, frames, htick, hfollow, rfl⟩, goesOn_cons.mpr ⟨hstops, hgoes⟩,
        hframe, ?_⟩
      rwa [Nat.add_right_comm, Nat.add_assoc] at hframe_stops

/-- Fewer ticks play the first of the frames. -/
theorem exists_follow_of_le (h : Host.follow fuel n played = some (frames, last)) (hle : m ≤ n) :
    ∃ last', Host.follow fuel m played = some (frames.take (m + 1), last') := by
  induction m generalizing n played frames with
  | zero =>
    cases n with
    | zero =>
      cases h
      exact ⟨_, rfl⟩
    | succ n =>
      obtain ⟨next, rest, -, -, rfl⟩ := Host.follow_succ.mp h
      exact ⟨_, rfl⟩
  | succ m ih =>
    obtain ⟨n, rfl⟩ : ∃ k, n = k + 1 := ⟨n - 1, by omega⟩
    obtain ⟨next, rest, htick, hrest, rfl⟩ := Host.follow_succ.mp h
    obtain ⟨last', htake⟩ := ih hrest (Nat.le_of_succ_le_succ hle)
    exact ⟨last', Host.follow_succ.mpr ⟨next, _, htick, htake, rfl⟩⟩

/-- A run that goes on has not ended before. -/
theorem exists_watchFrom_of_lt (f : Function) (filter : Log.Filter)
    (hfollow : Host.follow fuel n played = some (frames, last))
    (hgoes : GoesOn config.maxTicks played.2.ticks n frames) (hlt : m < n) :
    ∃ lines, watchFrom ⟨config, filter, f⟩ fuel m played = some (lines, none) := by
  have hsame : ∀ k ≤ m, (frames.take (m + 1))[k]? = frames[k]? := fun k hk =>
    List.getElem?_take_of_lt (Nat.lt_succ_of_le hk)
  have hearlier : GoesOn config.maxTicks played.2.ticks m (frames.take (m + 1)) := by
    intro k hk frame hframe
    rw [hsame k (Nat.le_of_lt hk)] at hframe
    exact hgoes k (Nat.lt_trans hk hlt) frame hframe
  obtain ⟨last', htake⟩ := exists_follow_of_le hfollow (Nat.le_of_lt hlt)
  obtain ⟨frame, lines, hframe, -, hwatch⟩ := exists_watchFrom f htake hearlier
  rw [hsame m (Nat.le_refl m)] at hframe
  rw [hwatch, endingOf?_eq_none_iff.mpr (hgoes m hlt frame hframe)]
  exact ⟨_, rfl⟩

/-! ### Whole runs -/

/-- An invocation under another log filter. -/
def Invocation.under (invocation : Invocation) (word : Option String) : Invocation :=
  { invocation with filter := word }

/-- What a run writes before its first frame, and the script that is ready to be played then. -/
def opening (invocation : Invocation) (readScript : String → Except ReadFailure String) :
    List String × Except Ending Ready :=
  match begin invocation with
  | (lines, .error ending) => (lines, .error ending)
  | (lines, .ok config) =>
    let (more, result) := prepare config invocation.logFilter .standard (readScript config.script)
    (lines ++ more, result)

/-- What a run writes up to a number of frames after the first one, and how it ends if it does by
then. -/
def watch (invocation : Invocation) (readScript : String → Except ReadFailure String)
    (fuel n : Nat) : Option (List String × Option Ending) :=
  match opening invocation readScript with
  | (lines, .error ending) => some (lines, some ending)
  | (lines, .ok ready) => do
    let first ← Host.start { registry := .standard } fuel ready.function
    let (rest, ending?) ← watchFrom ready fuel n first
    return (lines ++ rest, ending?)

/-- A script that loads and compiles is started with settings that ask for no dumps and leave time
between two ticks. -/
structure Invocation.Launches (invocation : Invocation)
    (readScript : String → Except ReadFailure String) (config : Config) (f : Function) : Prop where
  config_eq : invocation.effectiveConfig = .ok config
  dumpTree_eq : config.dumpTree = false
  dumpCode_eq : config.dumpCode = false
  interval_ne : config.interval ≠ 0
  script : ∃ source p, readScript config.script = .ok source ∧ Program.load source = .ok p ∧
    p.compile .standard = .ok f

/-- The frames of a script, and what a run of it reports of them. -/
structure Reports (invocation : Invocation) (readScript : String → Except ReadFailure String)
    (limit fuel : Nat) (f : Function) : Prop where
  /-- A run is watched until it ends. -/
  run_eq (word : Option String) (n : Nat) :
    run (invocation.under word) readScript fuel (n + 1) =
      (watch (invocation.under word) readScript fuel n).bind fun seen => seen.2.map (seen.1, ·)
  /-- If no frame before the n-th one behind the first ends the run, it has written what the script
  printed up to that stop of the machine. Then it ends with this frame or goes on. -/
  reported {n : Nat} {frames : List Frame} {last : Host}
    (play : Host.play { registry := .standard } fuel f n = some (frames, last))
    (goes : GoesOn limit 1 n frames) :
    ∃ frame stop lines, frames[n]? = some frame ∧
      ({} : Machine).nthStop? .standard fuel f n = some stop ∧
      Carries lines stop.2.output.console.toList ∧
      (frame.Stops limit (n + 1) → ∃ ending : Ending, (ending.code ≠ 0 ↔ frame.fault ≠ none) ∧
        ∀ word bound, run (invocation.under word) readScript fuel bound =
          if n < bound then some (lines (invocation.under word).logFilter, ending) else none) ∧
      (¬frame.Stops limit (n + 1) → ∀ word,
        watch (invocation.under word) readScript fuel n =
          some (lines (invocation.under word).logFilter, none))
  /-- A run ends with the first frame with which it can, and with no other. -/
  ended {word : Option String} {bound : Nat} {written : List String × Ending}
    (run_eq : run (invocation.under word) readScript fuel bound = some written) :
    ∃ n < bound, ∃ frames last frame,
      Host.play { registry := .standard } fuel f n = some (frames, last) ∧
      GoesOn limit 1 n frames ∧ frames[n]? = some frame ∧ frame.Stops limit (n + 1)

variable {invocation : Invocation} {readScript : String → Except ReadFailure String}
  {lines : List String} {bound : Nat}

/-- Once the script is ready, a run writes the lines of the opening and then those of the frames. -/
theorem run_of_opening (h : opening invocation readScript = (lines, .ok ready)) :
    run invocation readScript fuel bound = (play ready .standard fuel bound).map fun written =>
      (lines ++ written.1, written.2) := by
  unfold opening at h
  unfold run
  cases hbegin : begin invocation with
  | mk before settings =>
    rw [hbegin] at h
    cases settings with
    | error ending => cases h
    | ok config =>
      dsimp only at h ⊢
      cases hprepare : prepare config invocation.logFilter .standard (readScript config.script) with
      | mk more result =>
        rw [hprepare] at h
        cases h
        simp only [Option.map_eq_bind]
        rfl

/-- Once the script is ready, watching starts with the frame of the first run. -/
theorem watch_of_opening (h : opening invocation readScript = (lines, .ok ready)) :
    watch invocation readScript fuel n =
      (Host.start { registry := .standard } fuel ready.function).bind fun first =>
        (watchFrom ready fuel n first).map fun seen => (lines ++ seen.1, seen.2) := by
  unfold watch
  rw [h]
  simp only [Option.map_eq_bind]
  rfl

/-- Running to the end is watching until the run has ended. -/
theorem run_succ (h : opening invocation readScript = (lines, .ok ready)) :
    run invocation readScript fuel (n + 1) =
      (watch invocation readScript fuel n).bind fun seen => seen.2.map (seen.1, ·) := by
  rw [run_of_opening h, watch_of_opening h, play]
  cases Host.start { registry := .standard } fuel ready.function with
  | none => rfl
  | some first =>
    simp only [bind, Option.bind_some, playFrom_succ]
    cases watchFrom ready fuel n first with
    | none => rfl
    | some seen => obtain ⟨rest, _ | ending⟩ := seen <;> rfl

/-- No run is over without a single frame. -/
theorem run_zero (h : opening invocation readScript = (lines, .ok ready)) :
    run invocation readScript fuel 0 = none := by
  rw [run_of_opening h, play]
  cases Host.start { registry := .standard } fuel ready.function <;> rfl

/-- A script that compiles becomes ready with nothing but log lines. -/
theorem exists_compile {p : Program} {r : Registry} (htree : config.dumpTree = false)
    (hcode : config.dumpCode = false) (hinterval : config.interval ≠ 0)
    (hcompile : p.compile r = .ok f) :
    ∃ lines, Carries lines [] ∧
      ∀ filter, compile config filter r p = (lines filter, .ok ⟨config, filter, f⟩) := by
  unfold Program.compile at hcompile
  cases hcompilation : p.compilation r with
  | error refusal =>
    rw [hcompilation] at hcompile
    cases hcompile
  | ok result =>
    rw [hcompilation] at hcompile
    cases hcompile
    let start : Log.Entry := ⟨.info, target, "Running " ++ config.script ++ " (" ++
      toString result.function.instructions.size ++ " instructions)"⟩
    refine ⟨_, (Carries.log (compiledEntries result)).append_log [start], fun filter => ?_⟩
    simp [compile, hcompilation, htree, hcode, hinterval, start]

namespace Invocation.Launches

/-- Before its first frame, a run writes log lines only. -/
theorem exists_opening (h : invocation.Launches readScript config f) :
    ∃ lines, Carries lines [] ∧ ∀ word, opening (invocation.under word) readScript =
      (lines (invocation.under word).logFilter,
        .ok ⟨config, (invocation.under word).logFilter, f⟩) := by
  obtain ⟨source, p, hread, hload, hcompile⟩ := h.script
  obtain ⟨unfinished, hunfinished, rfl⟩ := map_eq_ok.mp hload
  obtain ⟨lines, hlines, hready⟩ :=
    exists_compile h.dumpTree_eq h.dumpCode_eq h.interval_ne hcompile
  let builtins : Log.Entry :=
    ⟨.debug, target, "Builtins: " ++ ", ".intercalate Registry.standard.names⟩
  refine ⟨_, (Carries.log config.summary).append (((Carries.log [builtins]).append_log
    (openBlockEntries unfinished.blocks.length)).append hlines), fun word => ?_⟩
  have hconfig : (invocation.under word).effectiveConfig = .ok config := h.config_eq
  simp [opening, begin, prepare, hconfig, hread, hunfinished, hready, builtins]

end Invocation.Launches

/-- The frames that a host plays come behind a first one, the number of which is one. -/
theorem exists_first (h : Host.play { registry := .standard } fuel f n = some (frames, last)) :
    ∃ first, Host.start { registry := .standard } fuel f = some first ∧ first.2.ticks = 1 ∧
      Host.follow fuel n first = some (frames, last) := by
  obtain ⟨first, hstart, hfollow⟩ := Option.bind_eq_some_iff.mp h
  obtain ⟨stop, -, rfl⟩ := Option.map_eq_some_iff.mp hstart
  exact ⟨_, hstart, rfl, hfollow⟩

/-- If a run has ended, it was with the first frame with which it could. -/
theorem exists_stops_of_run (hopening : opening invocation readScript = (lines, .ok ready))
    {written : List String × Ending}
    (hrun : run invocation readScript fuel bound = some written) :
    ∃ n < bound, ∃ frames last frame,
      Host.play { registry := .standard } fuel ready.function n = some (frames, last) ∧
      GoesOn ready.config.maxTicks 1 n frames ∧ frames[n]? = some frame ∧
      frame.Stops ready.config.maxTicks (n + 1) := by
  cases bound with
  | zero =>
    rw [run_zero hopening] at hrun
    cases hrun
  | succ bound =>
    rw [run_succ hopening, watch_of_opening hopening] at hrun
    obtain ⟨seen, hseen, hended⟩ := Option.bind_eq_some_iff.mp hrun
    obtain ⟨first, hstart, hwatch⟩ := Option.bind_eq_some_iff.mp hseen
    obtain ⟨rest, hrest, rfl⟩ := Option.map_eq_some_iff.mp hwatch
    obtain ⟨ending, hending, -⟩ := Option.map_eq_some_iff.mp hended
    obtain ⟨n, hle, frames, last, frame, hfollow, hgoes, hframe, hstops⟩ :=
      exists_stops_of_watchFrom hrest (Option.ne_none_iff_exists'.mpr ⟨ending, hending⟩)
    have hplay : Host.play { registry := .standard } fuel ready.function n = some (frames, last) :=
      Option.bind_eq_some_iff.mpr ⟨first, hstart, hfollow⟩
    obtain ⟨first', hstart', hticks, -⟩ := exists_first hplay
    obtain rfl := Option.some.inj (hstart.symm.trans hstart')
    rw [hticks] at hgoes hstops
    rw [Nat.add_comm] at hstops
    exact ⟨n, Nat.lt_succ_of_le hle, frames, last, frame, hplay, hgoes, hframe, hstops⟩

/-- A run that ends with a frame executes the frames up to this one, however many it may. -/
theorem run_of_watchFrom {filter : Log.Filter} {opens : List String} {ending : Ending}
    (hopening : opening invocation readScript = (opens, .ok ⟨config, filter, f⟩))
    (hstart : Host.start { registry := .standard } fuel f = some played)
    (hfollow : Host.follow fuel n played = some (frames, last))
    (hgoes : GoesOn config.maxTicks played.2.ticks n frames)
    (hwatch : watchFrom ⟨config, filter, f⟩ fuel n played = some (lines, some ending))
    (bound : Nat) : run invocation readScript fuel bound =
      if n < bound then some (opens ++ lines, ending) else none := by
  cases bound with
  | zero => rw [run_zero hopening, if_neg (Nat.not_lt_zero n)]
  | succ bound =>
    rw [run_succ hopening, watch_of_opening hopening, hstart, Option.bind_some]
    by_cases hle : n ≤ bound
    · rw [watchFrom_of_le hwatch (Option.some_ne_none ending) hle, if_pos (Nat.lt_succ_of_le hle)]
      rfl
    · obtain ⟨earlier, hearlier⟩ :=
        exists_watchFrom_of_lt f filter hfollow hgoes (Nat.lt_of_not_le hle)
      rw [hearlier, if_neg (fun hlt => hle (Nat.le_of_lt_succ hlt))]
      rfl

/-- A run of a script executes the frames of its host up to the first one that has a fault, is the
last one or reaches the tick limit. Log lines apart, it writes what the script printed up to that
stop of the machine, and it ends with an error exactly if the frame has a fault. If there is no such
frame, it reports every frame and does not end. -/
theorem run_reports (h : invocation.Launches readScript config f) (fuel : Nat) :
    Reports invocation readScript config.maxTicks fuel f := by
  obtain ⟨opens, hopens, hopening⟩ := h.exists_opening
  refine ⟨fun word n => run_succ (hopening word), ?_,
    fun {word} _ _ hrun => exists_stops_of_run (hopening word) hrun⟩
  intro n frames last hplay hgoes
  obtain ⟨first, hstart, hticks, hfollow⟩ := exists_first hplay
  rw [← hticks] at hgoes
  obtain ⟨stop, hcalls⟩ := Host.exists_showsCalls Registry.standard_onlyAppends hplay
  have hreturns := hcalls.returns
  rw [Nat.zero_add] at hreturns
  obtain ⟨frame, lines, hframe, hcarries, hwatch⟩ := exists_watchFrom f hfollow hgoes
  rw [hticks, Nat.add_comm] at hwatch
  refine ⟨frame, stop, fun filter => opens filter ++ lines filter, hframe, hreturns, ?_, ?_, ?_⟩
  · have hconsole : stop.2.output.console.toList = [] ++ frames.flatMap (·.console) :=
      hcalls.console
    rw [hconsole]
    exact hopens.append hcarries
  · intro hstops
    obtain ⟨⟨entry, ending⟩, hending⟩ :=
      Option.ne_none_iff_exists'.mp (mt endingOf?_eq_none_iff.mp (not_not_intro hstops))
    rw [hending] at hwatch
    exact ⟨ending, code_ne_zero_iff hending, fun word =>
      run_of_watchFrom (hopening word) hstart hfollow hgoes (hwatch _)⟩
  · intro hgoesOn word
    rw [watch_of_opening (hopening word), hstart, Option.bind_some, hwatch,
      endingOf?_eq_none_iff.mpr hgoesOn]
    rfl

/-- An invocation for at most two ticks. -/
def Invocation.twoTicks : Invocation where
  settings := some (.ok "maxticks = 2")
  arguments := ["broken.tick"]

/-- The tick limit does not hide a fault in the last tick. -/
theorem run_reports_twoTicks :
    ∃ config f, Invocation.twoTicks.Launches (fun _ => .ok Program.brokenOff.text) config f ∧
      config.maxTicks = 2 ∧
      ∃ lines ending, Carries lines ["true", "false"] ∧ Ending.code ending ≠ 0 ∧
        ∀ word bound, run (Invocation.twoTicks.under word) (fun _ => .ok Program.brokenOff.text) 20
          bound = if 1 < bound then some (lines (Invocation.twoTicks.under word).logFilter, ending)
            else none := by
  have hcanonical : Program.brokenOff.Canonical := by
    have hname : Token.IsName "Print" := ⟨⟨rfl, List.all_eq_true.mp rfl⟩, by decide⟩
    exact ⟨⟨hname, trivial, trivial⟩, ⟨trivial, trivial, ⟨hname, trivial, trivial⟩, trivial⟩,
      trivial, trivial⟩
  obtain ⟨config, hconfig, hlimit, htree, hcode, hinterval⟩ :
      ∃ config, Invocation.twoTicks.effectiveConfig = .ok config ∧ config.maxTicks = 2 ∧
        config.dumpTree = false ∧ config.dumpCode = false ∧ config.interval ≠ 0 :=
    ⟨_, rfl, rfl, rfl, rfl, by decide⟩
  obtain ⟨f, hcompile, frames, last, hplay, hfirst, frame, hframe, hfault, stop, hstop, hconsole⟩ :
      ∃ f, Program.brokenOff.compile .standard = .ok f ∧ ∃ frames last,
        Host.play { registry := .standard } 20 f 1 = some (frames, last) ∧
        frames[0]?.map (fun frame => (frame.fault, frame.isLast)) = some (none, false) ∧
        ∃ frame, frames[1]? = some frame ∧ frame.fault = some (.noTarget .goto) ∧
        ∃ stop, ({} : Machine).nthStop? .standard 20 f 1 = some stop ∧
          stop.2.output.console.toList = ["true", "false"] :=
    ⟨_, rfl, _, _, rfl, rfl, _, rfl, rfl, _, rfl, rfl⟩
  have hlaunches : Invocation.twoTicks.Launches (fun _ => .ok Program.brokenOff.text) config f :=
    ⟨hconfig, htree, hcode, hinterval, _, _, rfl, Program.load_text hcanonical, hcompile⟩
  have hgoes : GoesOn config.maxTicks 1 1 frames := by
    intro k hk first hat
    obtain rfl : k = 0 := by omega
    rw [hat] at hfirst
    have hboth := Option.some.inj hfirst
    simp only [Prod.mk.injEq] at hboth
    simp [Frame.Stops, hboth, hlimit]
  refine ⟨config, f, hlaunches, hlimit, ?_⟩
  obtain ⟨frame', stop', lines, hframe', hstop', hcarries, hends, -⟩ :=
    (run_reports hlaunches 20).reported hplay hgoes
  obtain rfl := Option.some.inj (hframe.symm.trans hframe')
  obtain rfl := Option.some.inj (hstop.symm.trans hstop')
  rw [hconsole] at hcarries
  have hfaulted : frame.fault ≠ none := by simp [hfault]
  obtain ⟨ending, hcode, hrun⟩ := hends (.inl hfaulted)
  exact ⟨lines, ending, hcarries, hcode.mpr hfaulted, hrun⟩

end Runner

end FrameScript
