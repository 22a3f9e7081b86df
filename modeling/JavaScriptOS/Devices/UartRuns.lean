import JavaScriptOS.Devices.Uart
import JavaScriptOS.Lib.Fair

/-!
# Characters through the serial port

Whatever the order in which driver and device take their steps, a character that `uart_putc` is called with is
sent once and in its turn, and `uart_getc` returns bytes in the order in which they came in. A byte is lost only
where the device itself overwrites it. `init_uart` finds the device only if its test byte has come back by the
time it is read.
-/

namespace JavaScriptOS.Devices
open JavaScriptOS.Lib

def Call.chars : Call → List (BitVec 8)
  | .putc c => [c]
  | _ => []

/-- A character that `uart_putc` has been called with and not yet written. -/
def Pc.pending : Pc → List (BitVec 8)
  | .poll c | .write c => [c]
  | _ => []

/-- Everything that has gone out or is still to go out, in its order. -/
def Com1.stream (s : Com1) : List (BitVec 8) :=
  s.dev.line ++ s.dev.shifting.toList ++ s.dev.holding.toList ++ s.pc.pending ++ s.calls.flatMap Call.chars

/-- The bytes that `uart_getc` has returned, and the one that it can return next. -/
def Com1.input (s : Com1) : List Int :=
  s.results.filter (· ≠ -1) ++ if s.dev.dataReady then [(s.dev.received.toNat : Int)] else []

/-- The bytes that come over the line. -/
def arrived (es : List Event) : List Int :=
  es.flatMap fun
    | .dev (.arrive b) => [(b.toNat : Int)]
    | _ => []

def Pc.serving : Pc → Bool
  | .init _ | .found => false
  | _ => true

/-- The device has been found and set up, and the driver serves calls of `uart_putc` and `uart_getc`. -/
structure Live (s : Com1) : Prop where
  present : s.present = true
  dlab : s.dev.dlab = false
  loopback : s.dev.loopback = false
  serving : s.pc.serving = true
  calls : .initUart ∉ s.calls
  empty : ∀ c, s.pc = .write c → s.dev.holding = none
  ready : s.pc = .fetch → s.dev.dataReady = true

/-! ## Registers -/

lemma lineStatus_holding (d : Uart) : d.lineStatus.getLsbD 5 = d.holding.isNone := by
  unfold Uart.lineStatus LineStatus.raw
  cases d.holding.isNone <;> cases d.shifting.isNone <;> cases d.dataReady <;> rfl

lemma lineStatus_dataReady (d : Uart) : d.lineStatus.getLsbD 0 = d.dataReady := by
  unfold Uart.lineStatus LineStatus.raw
  cases d.holding.isNone <;> cases d.shifting.isNone <;> cases d.dataReady <;> rfl

lemma write_data {d : Uart} (h : d.dlab = false) (v : BitVec 8) :
    d.write Offset.data v = { d with holding := some v } := by
  simp only [Uart.write, Offset.data, h]
  rfl

lemma read_data {d : Uart} (h : d.dlab = false) :
    d.read Offset.data = (d.received, { d with dataReady := false }) := by
  simp only [Uart.read, Offset.data, h]
  rfl

section Polling

variable (d : Uart) (present : Bool) (c : BitVec 8) (calls : List Call) (results : List Int) (errors : Nat)
  (routed : Bool)

lemma cpu_poll : Com1.cpu ⟨d, present, .poll c, calls, results, errors, routed⟩ =
    ⟨d, present, if d.holding.isNone then .write c else .poll c, calls, results, errors, routed⟩ := by
  rw [← lineStatus_holding]
  simp only [Com1.cpu, Uart.read, Offset.lineStatus]
  split <;> rfl

lemma cpu_status : Com1.cpu ⟨d, present, .status, calls, results, errors, routed⟩ =
    if d.dataReady then ⟨d, present, .fetch, calls, results, errors, routed⟩
    else ⟨d, present, .next, calls, results ++ [-1], errors, routed⟩ := by
  rw [← lineStatus_dataReady]
  rfl

end Polling

/-! ## One step -/

section Step

variable {s : Com1}

/-- What a step keeps, and what it adds to the input. -/
structure Serves (s s' : Com1) (come : List Int) : Prop where
  live : Live s'
  stream : s'.stream = s.stream
  input : s'.input.Sublist (s.input ++ come)
  count : s'.input.length + s'.dev.overruns = s.input.length + come.length + s.dev.overruns

/-- A step by which no byte comes in and no byte is lost. -/
lemma Serves.of_input_eq {s' : Com1} (live : Live s') (stream : s'.stream = s.stream) (input : s'.input = s.input)
    (overruns : s'.dev.overruns = s.dev.overruns) : Serves s s' [] where
  live := live
  stream := stream
  input := by rw [List.append_nil, input]
  count := by rw [input, overruns, List.length_nil, Nat.add_zero]

lemma Serves.refl (h : Live s) : Serves s s [] := .of_input_eq h rfl rfl rfl

lemma Serves.trans {s' s'' : Com1} {come come' : List Int} (h : Serves s s' come) (h' : Serves s' s'' come') :
    Serves s s'' (come ++ come') where
  live := h'.live
  stream := h'.stream.trans h.stream
  input := by
    rw [← List.append_assoc]
    exact h'.input.trans (h.input.append_right come')
  count := by
    have hfirst := h.count
    have hsecond := h'.count
    rw [List.length_append]
    omega

/-- A step of the device that leaves its settings alone. -/
lemma Live.device (h : Live s) {d : Uart} (hlcr : d.lineControl = s.dev.lineControl)
    (hmcr : d.modemControl = s.dev.modemControl) (hempty : s.dev.holding = none → d.holding = none)
    (hready : s.dev.dataReady = true → d.dataReady = true) : Live { s with dev := d } where
  present := h.present
  dlab := (congrArg (BitVec.getLsbD · 7) hlcr).trans h.dlab
  loopback := (congrArg (BitVec.getLsbD · 4) hmcr).trans h.loopback
  serving := h.serving
  calls := h.calls
  empty := fun c hc => hempty (h.empty c hc)
  ready := fun hf => hready (h.ready hf)

lemma serves_shift (h : Live s) : Serves s (s.step (.dev .shift)) [] := by
  cases hs : s.dev.shifting with
  | some b =>
    have hstep : s.step (.dev .shift) = s := by simp only [Com1.step, Uart.event, hs]
    rw [hstep]
    exact .refl h
  | none =>
    cases hh : s.dev.holding with
    | none =>
      have hstep : s.step (.dev .shift) = s := by simp only [Com1.step, Uart.event, hs, hh]
      rw [hstep]
      exact .refl h
    | some b =>
      have hstep : s.step (.dev .shift) = { s with dev := { s.dev with shifting := some b, holding := none } } := by
        simp only [Com1.step, Uart.event, hs, hh]
      rw [hstep]
      refine .of_input_eq (h.device rfl rfl (fun _ => rfl) fun hr => hr) ?_ rfl rfl
      simp [Com1.stream, hs, hh]

lemma serves_finish (h : Live s) : Serves s (s.step (.dev .finish)) [] := by
  cases hs : s.dev.shifting with
  | none =>
    have hstep : s.step (.dev .finish) = s := by simp only [Com1.step, Uart.event, hs]
    rw [hstep]
    exact .refl h
  | some b =>
    have hstep : s.step (.dev .finish) =
        { s with dev := { s.dev with shifting := none, line := s.dev.line ++ [b] } } := by
      simp only [Com1.step, Uart.event, hs, h.loopback]
      rfl
    rw [hstep]
    refine .of_input_eq (h.device rfl rfl (fun hn => hn) fun hr => hr) ?_ rfl rfl
    simp [Com1.stream, hs]

lemma serves_arrive (h : Live s) (b : BitVec 8) : Serves s (s.step (.dev (.arrive b))) [(b.toNat : Int)] := by
  have hstep : s.step (.dev (.arrive b)) = { s with dev := s.dev.receive b } := by
    simp only [Com1.step, Uart.event, h.loopback]
    rfl
  rw [hstep]
  refine ⟨h.device rfl rfl (fun hn => hn) fun _ => rfl, rfl, ?_, ?_⟩
  · unfold Com1.input
    rw [List.append_assoc]
    apply List.Sublist.append_left
    exact List.sublist_append_right _ _
  · unfold Com1.input Uart.receive
    cases s.dev.dataReady <;> simp
    omega

lemma serves_cpu (h : Live s) : Serves s (s.step .cpu) [] := by
  obtain ⟨d, present, pc, calls, results, errors, routed⟩ := s
  obtain ⟨rfl, hdlab, hloop, hserving, hcalls, hempty, hready⟩ := h
  cases pc with
  | init writes => cases hserving
  | found => cases hserving
  | next =>
    cases calls with
    | nil => exact .refl ⟨rfl, hdlab, hloop, rfl, hcalls, nofun, nofun⟩
    | cons c calls =>
      have hrest : .initUart ∉ calls := fun hmem => hcalls (List.mem_cons_of_mem c hmem)
      cases c with
      | initUart => exact absurd List.mem_cons_self hcalls
      | putc c =>
        change Serves _ ⟨d, true, .poll c, calls, results, errors, routed⟩ []
        refine .of_input_eq ⟨rfl, hdlab, hloop, rfl, hrest, nofun, nofun⟩ ?_ rfl rfl
        simp [Com1.stream, Pc.pending, Call.chars]
      | getc =>
        change Serves _ ⟨d, true, .status, calls, results, errors, routed⟩ []
        refine .of_input_eq ⟨rfl, hdlab, hloop, rfl, hrest, nofun, nofun⟩ ?_ rfl rfl
        simp [Com1.stream, Pc.pending, Call.chars]
  | poll c =>
    rw [Com1.step, cpu_poll]
    cases hh : d.holding with
    | none => exact .of_input_eq ⟨rfl, hdlab, hloop, rfl, hcalls, fun _ _ => hh, nofun⟩ rfl rfl rfl
    | some b => exact .refl ⟨rfl, hdlab, hloop, rfl, hcalls, nofun, nofun⟩
  | write c =>
    have hh : d.holding = none := hempty c rfl
    have hstep : Com1.step ⟨d, true, .write c, calls, results, errors, routed⟩ .cpu =
        ⟨{ d with holding := some c }, true, .next, calls, results, errors, routed⟩ := by
      simp only [Com1.step, Com1.cpu, write_data hdlab]
    rw [hstep]
    refine .of_input_eq ⟨rfl, hdlab, hloop, rfl, hcalls, nofun, nofun⟩ ?_ rfl rfl
    simp [Com1.stream, Pc.pending, hh]
  | status =>
    rw [Com1.step, cpu_status]
    cases hr : d.dataReady with
    | true => exact .of_input_eq ⟨rfl, hdlab, hloop, rfl, hcalls, nofun, fun _ => hr⟩ rfl rfl rfl
    | false =>
      refine .of_input_eq ⟨rfl, hdlab, hloop, rfl, hcalls, nofun, nofun⟩ rfl ?_ rfl
      simp [Com1.input]
  | fetch =>
    have hr : d.dataReady = true := hready rfl
    have hstep : Com1.step ⟨d, true, .fetch, calls, results, errors, routed⟩ .cpu =
        ⟨{ d with dataReady := false }, true, .next, calls, results ++ [(d.received.toNat : Int)], errors, routed⟩ := by
      simp only [Com1.step, Com1.cpu, read_data hdlab]
    rw [hstep]
    refine .of_input_eq ⟨rfl, hdlab, hloop, rfl, hcalls, nofun, nofun⟩ rfl ?_ rfl
    simp [Com1.input, hr]

lemma serves_step (h : Live s) (e : Event) : Serves s (s.step e) (arrived [e]) := by
  cases e with
  | cpu => exact serves_cpu h
  | dev e =>
    cases e with
    | shift => exact serves_shift h
    | finish => exact serves_finish h
    | arrive b => exact serves_arrive h b

lemma serves_run (h : Live s) (es : List Event) : Serves s (s.run es) (arrived es) := by
  induction es generalizing s with
  | nil => exact .refl h
  | cons e es ih =>
    have hfirst := serves_step h e
    have hall := hfirst.trans (ih hfirst.live)
    rwa [arrived, arrived, ← List.flatMap_append] at hall

end Step

/-! ## Progress -/

section Progress

variable {s : Com1}

/-- The steps that are left of a call. A character is still to be held and shifted when it is written. -/
def Pc.work : Pc → Nat
  | .poll _ => 4
  | .write _ => 3
  | .status => 2
  | .fetch => 1
  | _ => 0

/-- The steps that are left of the driver and of the device. -/
def Com1.work (s : Com1) : Nat :=
  5 * s.calls.length + s.pc.work + 2 * s.dev.holding.toList.length + s.dev.shifting.toList.length

/-- The event that everything waits for: what is shifted out has to be sent first, then what is held. -/
def Com1.helpful (s : Com1) : Event :=
  if s.dev.shifting.isSome then .dev .finish else if s.dev.holding.isSome then .dev .shift else .cpu

/-- A step that neither does work nor changes what is waited for. -/
def Idles (s s' : Com1) : Prop := s'.work = s.work ∧ s'.helpful = s.helpful

lemma work_shift (s : Com1) : (s.step (.dev .shift)).work < s.work ∨
    s.helpful ≠ .dev .shift ∧ Idles s (s.step (.dev .shift)) := by
  cases hs : s.dev.shifting with
  | some b =>
    have hstep : s.step (.dev .shift) = s := by simp only [Com1.step, Uart.event, hs]
    rw [hstep]
    exact Or.inr ⟨by simp [Com1.helpful, hs], rfl, rfl⟩
  | none =>
    cases hh : s.dev.holding with
    | none =>
      have hstep : s.step (.dev .shift) = s := by simp only [Com1.step, Uart.event, hs, hh]
      rw [hstep]
      exact Or.inr ⟨by simp [Com1.helpful, hs, hh], rfl, rfl⟩
    | some b =>
      left
      have hstep : s.step (.dev .shift) = { s with dev := { s.dev with shifting := some b, holding := none } } := by
        simp only [Com1.step, Uart.event, hs, hh]
      rw [hstep]
      simp [Com1.work, hs, hh]

lemma work_finish (h : Live s) : (s.step (.dev .finish)).work < s.work ∨
    s.helpful ≠ .dev .finish ∧ Idles s (s.step (.dev .finish)) := by
  cases hs : s.dev.shifting with
  | none =>
    have hstep : s.step (.dev .finish) = s := by simp only [Com1.step, Uart.event, hs]
    rw [hstep]
    refine Or.inr ⟨?_, rfl, rfl⟩
    unfold Com1.helpful
    rw [hs]
    cases s.dev.holding <;> exact fun h => by cases h
  | some b =>
    left
    have hstep : s.step (.dev .finish) =
        { s with dev := { s.dev with shifting := none, line := s.dev.line ++ [b] } } := by
      simp only [Com1.step, Uart.event, hs, h.loopback]
      rfl
    rw [hstep]
    simp [Com1.work, hs]

/-- The driver goes on, or it polls for a held character, or it has nothing to do. -/
lemma work_cpu (h : Live s) : (s.step .cpu).work < s.work ∨
    (s.dev.holding ≠ none ∨ s.pc = .next ∧ s.calls = []) ∧ Idles s (s.step .cpu) := by
  obtain ⟨d, present, pc, calls, results, errors, routed⟩ := s
  obtain ⟨rfl, hdlab, -, hserving, hcalls, hempty, -⟩ := h
  cases pc with
  | init writes => cases hserving
  | found => cases hserving
  | next =>
    cases calls with
    | nil => exact Or.inr ⟨Or.inr ⟨rfl, rfl⟩, rfl, rfl⟩
    | cons c calls =>
      left
      cases c with
      | initUart => exact absurd List.mem_cons_self hcalls
      | putc c =>
        change Com1.work ⟨d, true, .poll c, calls, results, errors, routed⟩ < _
        simp only [Com1.work, Pc.work, List.length_cons]
        omega
      | getc =>
        change Com1.work ⟨d, true, .status, calls, results, errors, routed⟩ < _
        simp only [Com1.work, Pc.work, List.length_cons]
        omega
  | poll c =>
    rw [Com1.step, cpu_poll]
    cases hh : d.holding with
    | none =>
      left
      simp only [Com1.work, Pc.work, hh, Option.isNone_none, if_true]
      omega
    | some b =>
      rw [Option.isNone_some, if_neg Bool.false_ne_true]
      exact Or.inr ⟨Or.inl (Option.some_ne_none b), rfl, rfl⟩
  | write c =>
    left
    have hh : d.holding = none := hempty c rfl
    have hstep : Com1.step ⟨d, true, .write c, calls, results, errors, routed⟩ .cpu =
        ⟨{ d with holding := some c }, true, .next, calls, results, errors, routed⟩ := by
      simp only [Com1.step, Com1.cpu, write_data hdlab]
    rw [hstep]
    simp only [Com1.work, Pc.work, hh, Option.toList_some, Option.toList_none, List.length_singleton, List.length_nil]
    omega
  | status =>
    left
    rw [Com1.step, cpu_status]
    split
    · simp only [Com1.work, Pc.work]
      omega
    · simp only [Com1.work, Pc.work]
      omega
  | fetch =>
    left
    have hstep : Com1.step ⟨d, true, .fetch, calls, results, errors, routed⟩ .cpu =
        ⟨{ d with dataReady := false }, true, .next, calls, results ++ [(d.received.toNat : Int)], errors, routed⟩ := by
      simp only [Com1.step, Com1.cpu, read_data hdlab]
    rw [hstep]
    simp only [Com1.work, Pc.work]
    omega

lemma idles_arrive (h : Live s) (b : BitVec 8) : Idles s (s.step (.dev (.arrive b))) := by
  have hstep : s.step (.dev (.arrive b)) = { s with dev := s.dev.receive b } := by
    simp only [Com1.step, Uart.event, h.loopback]
    rfl
  rw [hstep]
  exact ⟨rfl, rfl⟩

lemma ranked_work : Ranked Com1.step Live Com1.work Com1.helpful where
  inv := fun s e h => (serves_step h e).live
  waits := by
    intro s e h
    cases e with
    | cpu => exact (work_cpu h).imp_right And.right
    | dev e =>
      cases e with
      | shift => exact (work_shift s).imp_right And.right
      | finish => exact (work_finish h).imp_right And.right
      | arrive b => exact Or.inr (idles_arrive h b)
  helps := by
    intro s h hpos
    cases hs : s.dev.shifting with
    | some b =>
      have hnext : s.helpful = .dev .finish := by simp [Com1.helpful, hs]
      rw [hnext]
      exact (work_finish h).resolve_right fun hidle => hidle.1 hnext
    | none =>
      cases hh : s.dev.holding with
      | some b =>
        have hnext : s.helpful = .dev .shift := by simp [Com1.helpful, hs, hh]
        rw [hnext]
        exact (work_shift s).resolve_right fun hidle => hidle.1 hnext
      | none =>
        have hnext : s.helpful = .cpu := by simp [Com1.helpful, hs, hh]
        rw [hnext]
        refine (work_cpu h).resolve_right ?_
        rintro ⟨hheld | ⟨hpc, hcalls⟩, -⟩
        · exact hheld hh
        · -- nothing is left at all
          rw [Com1.work, hpc, hcalls, hs, hh] at hpos
          exact absurd hpos (lt_irrefl 0)

/-- The driver and the device both go on, whatever else happens. -/
structure FairSchedule (schedule : Nat → Event) : Prop where
  cpu : Recurs schedule .cpu
  shift : Recurs schedule (.dev .shift)
  finish : Recurs schedule (.dev .finish)

lemma FairSchedule.helpful {schedule : Nat → Event} (h : FairSchedule schedule) (s : Com1) :
    Recurs schedule s.helpful := by
  unfold Com1.helpful
  split
  · exact h.finish
  · split
    · exact h.shift
    · exact h.cpu

lemma sent_of_work (h : Live s) (hwork : s.work = 0) : s.calls = [] ∧ s.pc = .next ∧ s.dev.line = s.stream := by
  have hserving := h.serving
  unfold Com1.work at hwork
  have hcalls : s.calls = [] := List.length_eq_zero_iff.mp (by omega)
  have hheld : s.dev.holding.toList = [] := List.length_eq_zero_iff.mp (by omega)
  have hshift : s.dev.shifting.toList = [] := List.length_eq_zero_iff.mp (by omega)
  have hpc : s.pc = .next := by
    cases hp : s.pc with
    | next => rfl
    | init writes =>
      rw [hp] at hserving
      cases hserving
    | found =>
      rw [hp] at hserving
      cases hserving
    | _ =>
      rw [hp] at hwork
      simp [Pc.work] at hwork
  refine ⟨hcalls, hpc, ?_⟩
  rw [Com1.stream, hcalls, hpc, hheld, hshift]
  simp [Pc.pending]

lemma stream_after (h : Live s) (schedule : Nat → Event) (n : Nat) :
    (after Com1.step s schedule n).stream = s.stream := by
  induction n with
  | zero => rfl
  | succ n ih =>
    have hlive : Live (after Com1.step s schedule n) := after_invariant ranked_work.inv h n
    exact (serves_step hlive (schedule n)).stream.trans ih

/-- On every fair schedule all calls end and everything gets out. -/
lemma fair_sends (h : Live s) {schedule : Nat → Event} (hfair : FairSchedule schedule) : ∃ n, ∀ m, n ≤ m →
    (after Com1.step s schedule m).calls = [] ∧ (after Com1.step s schedule m).pc = .next ∧
      (after Com1.step s schedule m).dev.line = s.stream := by
  obtain ⟨n, hn⟩ := ranked_work.settles h hfair.helpful
  refine ⟨n, fun m hm => ?_⟩
  have hlive : Live (after Com1.step s schedule m) := after_invariant ranked_work.inv h m
  have hsent := sent_of_work hlive (hn m hm)
  rwa [stream_after h] at hsent

end Progress

/-- Characters go out once each and in the order of the calls. Bytes come in in their order, and as many are
missing as the device has overwritten. Nothing blocks as long as the driver and the device go on: on every fair
schedule all calls end, and everything has been sent. -/
theorem uart_delivers (s : Com1) (h : Live s) (es : List Event) :
    (s.run es).stream = s.stream ∧ (s.run es).input.Sublist (s.input ++ arrived es) ∧
      (s.run es).input.length + (s.run es).dev.overruns =
        s.input.length + (arrived es).length + s.dev.overruns ∧
      ∀ schedule, FairSchedule schedule → ∃ n, ∀ m, n ≤ m →
        let s' := after Com1.step (s.run es) schedule m
        s'.calls = [] ∧ s'.pc = .next ∧ s'.dev.line = s.stream := by
  have hserves := serves_run h es
  refine ⟨hserves.stream, hserves.input, hserves.count, fun schedule hfair => ?_⟩
  have hsend := fair_sends hserves.live hfair
  rwa [hserves.stream] at hsend

/-- A device that has nothing to do. -/
def idleUart : Uart := ⟨12, 0, 1, 0, 3, 0, 0, false, 0, none, none, []⟩

/-- The device sends what it has and the driver takes a step. -/
def inTurn (n : Nat) : Event := if n % 3 = 0 then .dev .finish else if n % 3 = 1 then .dev .shift else .cpu

lemma fairSchedule_inTurn : FairSchedule inTurn where
  cpu := by
    intro n
    refine ⟨3 * n + 2, by omega, ?_⟩
    rw [inTurn, if_neg (by omega), if_neg (by omega)]
  shift := by
    intro n
    refine ⟨3 * n + 1, by omega, ?_⟩
    rw [inTurn, if_neg (by omega), if_pos (by omega)]
  finish := by
    intro n
    refine ⟨3 * n, by omega, ?_⟩
    rw [inTurn, if_pos (by omega)]

theorem uart_delivers_both_ways :
    let s : Com1 := ⟨idleUart, true, .next, [.putc 0x61, .getc, .putc 0x62], [], 0, true⟩
    let es := [.cpu, .cpu, .cpu, .dev (.arrive 0x7A), .cpu, .dev .shift, .cpu, .cpu]
    Live s ∧ (s.run es).results = [0x7A] ∧ ∃ n, (after Com1.step (s.run es) inTurn n).dev.line = [0x61, 0x62] := by
  intro s es
  have hlive : Live s := ⟨rfl, by decide, by decide, rfl, by decide, nofun, nofun⟩
  obtain ⟨-, -, -, hsend⟩ := uart_delivers s hlive es
  obtain ⟨n, hn⟩ := hsend inTurn fairSchedule_inTurn
  exact ⟨hlive, by decide +kernel, n, (hn n le_rfl).2.2⟩

end JavaScriptOS.Devices
