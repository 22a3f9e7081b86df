import JavaScriptOS.Devices.UartRuns
import Mathlib.Tactic.IntervalCases

/-!
# Finding the serial port

`init_uart` sets the device up, sends a byte round the loopback and looks at once whether it is back. It does
not wait for it: a device that needs longer than the driver between the two accesses is taken to be absent, and
then the loopback stays on and nothing is ever sent.
-/

namespace JavaScriptOS.Devices

/-- What the driver sets. -/
structure Settings where
  divisorLsb : BitVec 8
  divisorMsb : BitVec 8
  interruptEnable : BitVec 8
  fifoControl : BitVec 8
  lineControl : BitVec 8
  modemControl : BitVec 8
  deriving DecidableEq

def Uart.settings (d : Uart) : Settings :=
  ⟨d.divisorLsb, d.divisorMsb, d.interruptEnable, d.fifoControl, d.lineControl, d.modemControl⟩

/-- Nothing is held or being sent, nothing has been sent, and what was received last is not the test byte. -/
structure Idle (d : Uart) : Prop where
  holding : d.holding = none
  shifting : d.shifting = none
  line : d.line = []
  received : d.received ≠ testByte

/-- The driver before `init_uart` and the calls behind it. -/
def boot (d : Uart) (cs : List Call) : Com1 := ⟨d, false, .next, .initUart :: cs, [], 0, false⟩

/-- `init_uart` is not over. -/
def Com1.starting (s : Com1) : Prop := s.pc.serving = false ∨ .initUart ∈ s.calls

/-- Nobody sends the test byte over the line before `init_uart` is over. -/
def Quiet (s : Com1) (es : List Event) : Prop :=
  ∀ before e, before ++ [e] <+: es → (s.run before).starting → e ≠ .dev (.arrive testByte)

/-- The device after the first `k` writes of `init_uart`. -/
def afterWrites (d : Uart) (k : Nat) : Uart := (initWrites.take k).foldl (fun d w => d.write w.1 w.2) d

/-! ## Settings -/

section Settings

variable {d d' : Uart}

lemma settings_event (d : Uart) (e : LineEvent) : (d.event e).settings = d.settings := by
  cases e with
  | shift =>
    dsimp only [Uart.event]
    split <;> rfl
  | finish =>
    dsimp only [Uart.event]
    split
    · rfl
    · split <;> rfl
  | arrive b =>
    dsimp only [Uart.event]
    split <;> rfl

lemma dlab_of_settings (h : d.settings = d'.settings) : d.dlab = d'.dlab := by
  unfold Uart.dlab
  rw [(Settings.mk.inj h).2.2.2.2.1]

lemma settings_write (h : d.settings = d'.settings) (offset : Nat) (v : BitVec 8) :
    (d.write offset v).settings = (d'.write offset v).settings := by
  obtain ⟨h1, h2, h3, h4, h5, h6⟩ := Settings.mk.inj h
  have hdlab := dlab_of_settings h
  unfold Uart.write
  rw [hdlab]
  split
  · split <;> simp only [Uart.settings, h1, h2, h3, h4, h5, h6]
  · split <;> simp only [Uart.settings, h1, h2, h3, h4, h5, h6]
  all_goals simp only [Uart.settings, h1, h2, h3, h4, h5, h6]

lemma afterWrites_succ (d : Uart) {k : Nat} {w : Nat × BitVec 8} (hw : initWrites[k]? = some w) :
    afterWrites d (k + 1) = (afterWrites d k).write w.1 w.2 := by
  rw [afterWrites, List.take_add_one, hw, List.foldl_append]
  rfl

lemma idle_write (h : Idle d) {offset : Nat} (v : BitVec 8) (hdata : offset = 0 → d.dlab = true) :
    Idle (d.write offset v) := by
  unfold Uart.write
  split
  · rw [if_pos (hdata rfl)]
    exact ⟨h.holding, h.shifting, h.line, h.received⟩
  · split
    · exact ⟨h.holding, h.shifting, h.line, h.received⟩
    · exact ⟨h.holding, h.shifting, h.line, h.received⟩
  all_goals exact ⟨h.holding, h.shifting, h.line, h.received⟩

lemma idle_event (h : Idle d) {e : LineEvent} (he : e ≠ .arrive testByte) : Idle (d.event e) := by
  cases e with
  | shift =>
    have hsame : d.event .shift = d := by simp only [Uart.event, h.shifting, h.holding]
    rw [hsame]
    exact h
  | finish =>
    have hsame : d.event .finish = d := by simp only [Uart.event, h.shifting]
    rw [hsame]
    exact h
  | arrive b =>
    dsimp only [Uart.event]
    split
    · exact h
    · exact ⟨h.holding, h.shifting, h.line, fun hb => he (congrArg LineEvent.arrive hb)⟩

/-- Up to the test byte, the register at offset 0 is written as a part of the divisor. -/
lemma initWrites_divisor (d : Uart) {k : Nat} (hk : k < 7) {w : Nat × BitVec 8} (hw : initWrites[k]? = some w)
    (hzero : w.1 = 0) : (afterWrites d k).dlab = true := by
  have hother : k ≠ 2 → w.1 ≠ 0 := by
    intro hne
    interval_cases k <;> first | exact absurd rfl hne | (obtain rfl := Option.some.inj hw; decide)
  by_cases hk2 : k = 2
  · subst hk2
    have hlcr : (afterWrites d 2).lineControl = 0x80 := rfl
    rw [Uart.dlab, hlcr]
    rfl
  · exact absurd hzero (hother hk2)

/-- The settings during the loopback test. -/
def tested : Settings := ⟨12, 0, 1, 0, 3, 0x1E⟩

lemma settings_afterWrites (d : Uart) : (afterWrites d 7).settings = tested := by
  have hset : (LineControl.raw { dlab := 1 }).getLsbD 7 = true := by decide
  have hclear : (LineControl.raw { dataBits := 3, stopBits := 0, parity := 0, breakEnable := 0, dlab := 0 }).getLsbD 7 =
      false := by decide
  simp only [afterWrites, initWrites, List.take, List.foldl, Uart.write, Offset.fifoControl, Offset.lineControl,
    Offset.divisorLsb, Offset.divisorMsb, Offset.interruptEnable, Offset.modemControl, Uart.dlab, hset, hclear,
    if_true, if_false, Bool.false_eq_true, Uart.settings]
  rfl

lemma dlab_of_tested (h : d.settings = tested) : d.dlab = false := by
  unfold Uart.dlab
  rw [(Settings.mk.inj h).2.2.2.2.1]
  rfl

lemma loopback_of_tested (h : d.settings = tested) : d.loopback = true := by
  unfold Uart.loopback
  rw [(Settings.mk.inj h).2.2.2.2.2]
  rfl

end Settings

/-! ## Phases -/

section Phases

variable {cs : List Call} {es : List Event} {s : Com1}

/-- `init_uart` has found nothing out yet. -/
structure Fresh (s : Com1) : Prop where
  present : s.present = false
  errors : s.errors = 0
  routed : s.routed = false
  results : s.results = []

/-- The test byte is held, is being sent, or has come back. -/
inductive TestByte (es : List Event) (d : Uart) : Prop
  | held (holding : d.holding = some testByte) (shifting : d.shifting = none) (received : d.received ≠ testByte)
  | sent (holding : d.holding = none) (shifting : d.shifting = some testByte) (received : d.received ≠ testByte)
  | back (holding : d.holding = none) (shifting : d.shifting = none) (received : d.received = testByte)
      (went : .dev .finish ∈ es)

/-- The device has not been found. -/
structure Dead (s : Com1) : Prop where
  present : s.present = false
  errors : s.errors = 1
  routed : s.routed = false
  pc : s.pc = .next
  calls : .initUart ∉ s.calls
  settings : s.dev.settings = tested
  line : s.dev.line = []
  results : ∀ r ∈ s.results, r = -1

/-- Where `init_uart` is after the steps `es`, with the calls `cs` behind it. -/
inductive Phase (cs : List Call) (es : List Event) (s : Com1) : Prop
  | before (steps : es.count .cpu = 0) (fresh : Fresh s) (pc : s.pc = .next) (calls : s.calls = .initUart :: cs)
      (idle : Idle s.dev)
  | writing (d : Uart) (k : Nat) (more : k < 8) (steps : es.count .cpu = k + 1) (fresh : Fresh s)
      (pc : s.pc = .init (initWrites.drop k)) (calls : s.calls = cs) (idle : Idle s.dev)
      (settings : s.dev.settings = (afterWrites d k).settings)
  | testing (steps : es.count .cpu = 9) (fresh : Fresh s) (pc : s.pc = .init []) (calls : s.calls = cs)
      (settings : s.dev.settings = tested) (line : s.dev.line = []) (byte : TestByte es s.dev)
  | found (steps : es.count .cpu = 10) (present : s.present = true) (errors : s.errors = 0)
      (routed : s.routed = false) (pc : s.pc = .found)
      (calls : s.calls = cs) (settings : s.dev.settings = tested) (holding : s.dev.holding = none)
      (shifting : s.dev.shifting = none) (line : s.dev.line = []) (went : .dev .finish ∈ es)
  | live (live : Live s) (errors : s.errors = 0) (routed : s.routed = true)
      (stream : s.stream = message ++ cs.flatMap Call.chars)
      (settings : s.dev.settings = { tested with modemControl := 0 }) (went : .dev .finish ∈ es)
  | dead (dead : Dead s)

lemma Fresh.dev (h : Fresh s) (d : Uart) : Fresh { s with dev := d } := ⟨h.present, h.errors, h.routed, h.results⟩

lemma TestByte.event {d : Uart} (h : TestByte es d) (hloop : d.loopback = true) (e : LineEvent) :
    TestByte (es ++ [.dev e]) (d.event e) := by
  have hmem : ∀ e', .dev e' ∈ es → .dev e' ∈ es ++ [.dev e] := fun e' he => List.mem_append_left _ he
  cases e with
  | shift =>
    cases h with
    | held holding shifting received =>
      have hstep : d.event .shift = { d with shifting := some testByte, holding := none } := by
        simp only [Uart.event, shifting, holding]
      rw [hstep]
      exact .sent rfl rfl received
    | sent holding shifting received =>
      have hstep : d.event .shift = d := by simp only [Uart.event, shifting]
      rw [hstep]
      exact .sent holding shifting received
    | back holding shifting received went =>
      have hstep : d.event .shift = d := by simp only [Uart.event, shifting, holding]
      rw [hstep]
      exact .back holding shifting received (hmem _ went)
  | finish =>
    cases h with
    | held holding shifting received =>
      have hstep : d.event .finish = d := by simp only [Uart.event, shifting]
      rw [hstep]
      exact .held holding shifting received
    | sent holding shifting received =>
      have hstep : d.event .finish = Uart.receive { d with shifting := none } testByte := by
        simp only [Uart.event, shifting, hloop]
        rfl
      rw [hstep]
      exact .back holding rfl rfl (List.mem_append_right _ (List.mem_singleton_self _))
    | back holding shifting received went =>
      have hstep : d.event .finish = d := by simp only [Uart.event, shifting]
      rw [hstep]
      exact .back holding shifting received (hmem _ went)
  | arrive b =>
    have hstep : d.event (.arrive b) = d := by
      simp only [Uart.event, hloop]
      rfl
    rw [hstep]
    cases h with
    | held holding shifting received => exact .held holding shifting received
    | sent holding shifting received => exact .sent holding shifting received
    | back holding shifting received went => exact .back holding shifting received (hmem _ went)

/-- With the loopback on, nothing reaches the line. -/
lemma line_event_of_loopback {d : Uart} (hloop : d.loopback = true) (e : LineEvent) : (d.event e).line = d.line := by
  cases e with
  | shift =>
    dsimp only [Uart.event]
    split <;> rfl
  | finish =>
    dsimp only [Uart.event]
    split
    · rfl
    · rw [if_pos hloop]
      rfl
  | arrive b =>
    dsimp only [Uart.event]
    rw [if_pos hloop]

lemma Phase.dev (h : Phase cs es s) (e : LineEvent) (hquiet : s.starting → e ≠ .arrive testByte) :
    Phase cs (es ++ [.dev e]) (s.step (.dev e)) := by
  have hsettings := settings_event s.dev e
  have hcount : (es ++ [Event.dev e]).count Event.cpu = es.count Event.cpu := by simp
  cases h with
  | before steps fresh pc calls idle =>
    have hstart : s.starting := Or.inr (calls ▸ List.mem_cons_self)
    exact .before (hcount.trans steps) (fresh.dev _) pc calls (idle_event idle (hquiet hstart))
  | writing d k more steps fresh pc calls idle settings =>
    have hstart : s.starting := Or.inl (by rw [pc]; rfl)
    exact .writing d k more (hcount.trans steps) (fresh.dev _) pc calls (idle_event idle (hquiet hstart))
      (hsettings.trans settings)
  | testing steps fresh pc calls settings line byte =>
    have hloop := loopback_of_tested settings
    exact .testing (hcount.trans steps) (fresh.dev _) pc calls (hsettings.trans settings)
      ((line_event_of_loopback hloop e).trans line) (byte.event hloop e)
  | found steps present errors routed pc calls settings holding shifting line went =>
    have hstay : s.dev.event e = s.dev := by
      cases e with
      | shift => simp only [Uart.event, shifting, holding]
      | finish => simp only [Uart.event, shifting]
      | arrive b =>
        simp only [Uart.event, loopback_of_tested settings]
        rfl
    have hstep : s.step (.dev e) = s := by rw [Com1.step, hstay]
    rw [hstep]
    exact .found (hcount.trans steps) present errors routed pc calls settings holding shifting line
      (List.mem_append_left _ went)
  | live live errors routed stream settings went =>
    have hserves := serves_step live (.dev e)
    exact .live hserves.live errors routed (hserves.stream.trans stream) (hsettings.trans settings)
      (List.mem_append_left _ went)
  | dead dead =>
    refine .dead ⟨dead.present, dead.errors, dead.routed, dead.pc, dead.calls, hsettings.trans dead.settings, ?_,
      dead.results⟩
    exact (line_event_of_loopback (loopback_of_tested dead.settings) e).trans dead.line

/-- The driver writes nothing but characters once it serves calls. -/
lemma Live.cpu_kept (h : Live s) :
    s.cpu.dev.settings = s.dev.settings ∧ s.cpu.errors = s.errors ∧ s.cpu.routed = s.routed := by
  obtain ⟨d, present, pc, calls, results, errors, routed⟩ := s
  obtain ⟨rfl, hdlab, -, hserving, hcalls, -, -⟩ := h
  cases pc with
  | init writes => cases hserving
  | found => cases hserving
  | next =>
    cases calls with
    | nil => exact ⟨rfl, rfl, rfl⟩
    | cons c calls =>
      cases c with
      | initUart => exact absurd List.mem_cons_self hcalls
      | putc c => exact ⟨rfl, rfl, rfl⟩
      | getc => exact ⟨rfl, rfl, rfl⟩
  | poll c =>
    rw [cpu_poll]
    exact ⟨rfl, rfl, rfl⟩
  | write c =>
    dsimp only [Com1.cpu]
    rw [write_data hdlab]
    exact ⟨rfl, rfl, rfl⟩
  | status =>
    rw [cpu_status]
    split <;> exact ⟨rfl, rfl, rfl⟩
  | fetch =>
    dsimp only [Com1.cpu]
    rw [read_data hdlab]
    exact ⟨rfl, rfl, rfl⟩

lemma flatMap_putc (l : List (BitVec 8)) : (l.map Call.putc).flatMap Call.chars = l := by
  induction l with
  | nil => rfl
  | cons c l ih => rw [List.map_cons, List.flatMap_cons, ih, Call.chars, List.singleton_append]

lemma Phase.cpu (h : Phase cs es s) (hcs : .initUart ∉ cs) : Phase cs (es ++ [.cpu]) s.cpu := by
  obtain ⟨d, present, pc, calls, results, errors, routed⟩ := s
  have hcount : (es ++ [Event.cpu]).count Event.cpu = es.count Event.cpu + 1 := by simp
  cases h with
  | before steps fresh hpc hcalls idle =>
    dsimp only at hpc hcalls
    subst hpc hcalls
    exact .writing d 0 (by decide) (by omega) ⟨fresh.present, fresh.errors, fresh.routed, fresh.results⟩
      rfl rfl idle rfl
  | writing d₀ k more steps fresh hpc hcalls idle settings =>
    dsimp only at hpc hcalls settings
    subst hpc hcalls
    have hlen : k < initWrites.length := more
    have hw : initWrites[k]? = some initWrites[k] := List.getElem?_eq_getElem hlen
    have hstep : Com1.cpu ⟨d, present, .init (initWrites.drop k), calls, results, errors, routed⟩ =
        ⟨d.write initWrites[k].1 initWrites[k].2, present, .init (initWrites.drop (k + 1)), calls, results, errors,
          routed⟩ := by
      rw [List.drop_eq_getElem_cons hlen]
      rfl
    rw [hstep]
    have hfresh : Fresh ⟨d.write initWrites[k].1 initWrites[k].2, present, .init (initWrites.drop (k + 1)), calls,
        results, errors, routed⟩ := ⟨fresh.present, fresh.errors, fresh.routed, fresh.results⟩
    by_cases hk : k < 7
    · refine .writing d₀ (k + 1) (by omega) (by omega) hfresh rfl rfl (idle_write idle _ fun hzero => ?_) ?_
      · rw [dlab_of_settings settings]
        exact initWrites_divisor d₀ hk hw hzero
      · rw [afterWrites_succ d₀ hw]
        exact settings_write settings _ _
    · -- the test byte itself
      obtain rfl : k = 7 := by omega
      rw [settings_afterWrites] at settings
      have hdata : d.write initWrites[7].1 initWrites[7].2 = { d with holding := some testByte } := by
        change (if d.dlab then _ else _) = _
        rw [dlab_of_tested settings]
        rfl
      rw [hdata] at hfresh ⊢
      exact .testing (by omega) hfresh rfl rfl settings idle.line (.held rfl idle.shifting idle.received)
  | testing steps fresh hpc hcalls settings line byte =>
    dsimp only at hpc hcalls
    subst hpc hcalls
    have hread := read_data (dlab_of_tested settings)
    have hstep : Com1.cpu ⟨d, present, .init [], calls, results, errors, routed⟩ =
        if d.received ≠ testByte then
          ⟨{ d with dataReady := false }, present, .next, calls, results, errors + 1, routed⟩
        else ⟨{ d with dataReady := false }, true, .found, calls, results, errors, routed⟩ := by
      simp only [Com1.cpu, hread]
    have hmissed : d.received ≠ testByte →
        Phase calls (es ++ [.cpu]) (Com1.cpu ⟨d, present, .init [], calls, results, errors, routed⟩) := by
      intro hne
      have herrors : errors + 1 = 1 := congrArg (· + 1) fresh.errors
      have hresults : ∀ r ∈ results, r = -1 := by
        rw [show results = [] from fresh.results]
        exact List.forall_mem_nil _
      rw [hstep, if_pos hne]
      exact .dead ⟨fresh.present, herrors, fresh.routed, rfl, hcs, settings, line, hresults⟩
    cases byte with
    | held holding shifting received => exact hmissed received
    | sent holding shifting received => exact hmissed received
    | back holding shifting received went =>
      rw [hstep, if_neg (not_not_intro received)]
      exact .found (by omega) rfl fresh.errors fresh.routed rfl rfl settings holding shifting line
        (List.mem_append_left _ went)
  | found steps hpresent herrors hrouted hpc hcalls settings holding shifting line went =>
    dsimp only at hpresent hpc hcalls
    subst hpresent hpc hcalls
    have hlive : Live ⟨d.write Offset.modemControl 0, true, .next, message.map Call.putc ++ calls, results, errors,
        true⟩ := by
      have hdlab : d.dlab = false := dlab_of_tested settings
      have hloop : (d.write Offset.modemControl 0).loopback = false := by
        change (0 : BitVec 8).getLsbD 4 = false
        decide
      refine ⟨rfl, hdlab, hloop, rfl, ?_, (fun _ h => by cases h), fun h => by cases h⟩
      intro hmem
      rcases List.mem_append.mp hmem with hmsg | hrest
      · obtain ⟨c, -, hc⟩ := List.mem_map.mp hmsg
        cases hc
      · exact hcs hrest
    refine .live hlive herrors rfl ?_ ?_ (List.mem_append_left _ went)
    · change d.line ++ d.shifting.toList ++ d.holding.toList ++ [] ++
        (message.map Call.putc ++ calls).flatMap Call.chars = _
      rw [show d.line = [] from line, show d.shifting = none from shifting, show d.holding = none from holding,
        List.flatMap_append, flatMap_putc]
      rfl
    · obtain ⟨h1, h2, h3, h4, h5, -⟩ := Settings.mk.inj settings
      exact congr (congr (congr (congr (congr (congrArg Settings.mk h1) h2) h3) h4) h5) rfl
  | live live herrors hrouted stream settings went =>
    obtain ⟨hsettings, hcount, hroute⟩ := live.cpu_kept
    have hserves := serves_cpu live
    exact .live hserves.live (hcount.trans herrors) (hroute.trans hrouted) (hserves.stream.trans stream)
      (hsettings.trans settings) (List.mem_append_left _ went)
  | dead dead =>
    obtain ⟨hpresent, herrors, hrouted, hpc, hcalls, settings, line, hresults⟩ := dead
    dsimp only at hpresent hpc
    subst hpresent hpc
    cases calls with
    | nil => exact .dead ⟨rfl, herrors, hrouted, rfl, hcalls, settings, line, hresults⟩
    | cons c calls =>
      have hrest : .initUart ∉ calls := fun hmem => hcalls (List.mem_cons_of_mem c hmem)
      cases c with
      | initUart => exact absurd List.mem_cons_self hcalls
      | putc c => exact .dead ⟨rfl, herrors, hrouted, rfl, hrest, settings, line, hresults⟩
      | getc =>
        refine .dead ⟨rfl, herrors, hrouted, rfl, hrest, settings, line, fun r hr => ?_⟩
        rcases List.mem_append.mp hr with hold | hnew
        · exact hresults r hold
        · exact List.mem_singleton.mp hnew

lemma Phase.step (h : Phase cs es s) (hcs : .initUart ∉ cs) (e : Event)
    (hquiet : s.starting → e ≠ .dev (.arrive testByte)) : Phase cs (es ++ [e]) (s.step e) := by
  cases e with
  | cpu => exact h.cpu hcs
  | dev e =>
    apply h.dev
    intro hstart he
    exact hquiet hstart (congrArg Event.dev he)

lemma phase_run {d : Uart} (hd : Idle d) (hcs : .initUart ∉ cs) (es : List Event) (hquiet : Quiet (boot d cs) es) :
    Phase cs es ((boot d cs).run es) := by
  induction es using List.reverseRecOn with
  | nil => exact .before rfl ⟨rfl, rfl, rfl, rfl⟩ rfl rfl hd
  | append_singleton es e ih =>
    have hbefore : Quiet (boot d cs) es := fun before e' hpre =>
      hquiet before e' (hpre.trans (List.prefix_append es [e]))
    rw [Com1.run, List.foldl_append]
    exact (ih hbefore).step hcs e (hquiet es e List.prefix_rfl)

end Phases

/-- For every timing of the device, `init_uart` is over after eleven steps of the driver. If the driver then takes
the device to be present, the test byte has been round, and the message and the characters of all calls go out
in their order and nothing else does. Otherwise it has reported an error, nothing is ever sent, `uart_getc`
never returns a byte, and the loopback stays on. -/
theorem uart_init_outcome (d : Uart) (cs : List Call) (es : List Event) (hd : Idle d) (hcs : .initUart ∉ cs)
    (hquiet : Quiet (boot d cs) es) :
    let s := (boot d cs).run es
    s.dev.line <+: message ++ cs.flatMap Call.chars ∧ (s.present = true → .dev .finish ∈ es) ∧
      (11 ≤ es.count .cpu → ¬s.starting) ∧
      (¬s.starting →
        s.present = true ∧ Live s ∧ s.stream = message ++ cs.flatMap Call.chars ∧
          s.dev.settings = ⟨12, 0, 1, 0, 3, 0⟩ ∧ s.errors = 0 ∨
        s.present = false ∧ s.errors = 1 ∧ s.dev.line = [] ∧ s.dev.loopback = true ∧ ∀ r ∈ s.results, r = -1) := by
  intro s
  have hphase : Phase cs es s := phase_run hd hcs es hquiet
  clear_value s
  have hnone : s.dev.line = [] → s.dev.line <+: message ++ cs.flatMap Call.chars := by
    intro hline
    rw [hline]
    exact List.nil_prefix
  have habsent : s.present = false → s.present = true → .dev .finish ∈ es := by
    intro hfalse htrue
    rw [hfalse] at htrue
    cases htrue
  cases hphase with
  | before steps fresh pc calls idle =>
    have hstart : s.starting := Or.inr (calls ▸ List.mem_cons_self)
    exact ⟨hnone idle.line, habsent fresh.present, fun h => by omega, fun hover => absurd hstart hover⟩
  | writing d₀ k more steps fresh pc calls idle settings =>
    have hstart : s.starting := Or.inl (by rw [pc]; rfl)
    exact ⟨hnone idle.line, habsent fresh.present, fun h => by omega, fun hover => absurd hstart hover⟩
  | testing steps fresh pc calls settings line byte =>
    have hstart : s.starting := Or.inl (by rw [pc]; rfl)
    exact ⟨hnone line, habsent fresh.present, fun h => by omega, fun hover => absurd hstart hover⟩
  | found steps present errors routed pc calls settings holding shifting line went =>
    have hstart : s.starting := Or.inl (by rw [pc]; rfl)
    exact ⟨hnone line, fun _ => went, fun h => by omega, fun hover => absurd hstart hover⟩
  | live live errors routed stream settings went =>
    have hover : ¬s.starting := by
      rintro (hpc | hcall)
      · rw [live.serving] at hpc
        cases hpc
      · exact live.calls hcall
    refine ⟨?_, fun _ => went, fun _ => hover, fun _ => Or.inl ⟨live.present, live, stream, settings, errors⟩⟩
    rw [← stream]
    simp only [Com1.stream, List.append_assoc]
    exact List.prefix_append _ _
  | dead dead =>
    have hover : ¬s.starting := by
      rintro (hpc | hcall)
      · rw [dead.pc] at hpc
        cases hpc
      · exact dead.calls hcall
    exact ⟨hnone dead.line, habsent dead.present, fun _ => hover, fun _ =>
      Or.inr ⟨dead.present, dead.errors, dead.line, loopback_of_tested dead.settings, dead.results⟩⟩

/-- A driver that meets a device with a byte time of its own, and one that does not wait for it. -/
theorem uart_init_outcome_both :
    let es := List.replicate 9 .cpu ++ [.dev .shift, .dev .finish] ++ List.replicate 2 .cpu
    let s := (boot idleUart [.putc 0x61]).run es
    let s' := (boot idleUart [.putc 0x61]).run (List.replicate 11 .cpu)
    Live s ∧ s.stream = message ++ [0x61] ∧ s'.present = false ∧ s'.dev.loopback = true := by
  intro es s s'
  have hidle : Idle idleUart := ⟨rfl, rfl, rfl, by decide⟩
  have hquiet : ∀ es', .dev (.arrive testByte) ∉ es' → Quiet (boot idleUart [.putc 0x61]) es' := by
    rintro es' hnot before e hpre - rfl
    exact hnot (hpre.subset (List.mem_append_right _ (List.mem_singleton_self _)))
  obtain ⟨-, -, hover, hend⟩ := uart_init_outcome idleUart [.putc 0x61] es hidle (by decide) (hquiet es (by decide))
  obtain ⟨-, -, hover', hend'⟩ := uart_init_outcome idleUart [.putc 0x61] (List.replicate 11 .cpu) hidle (by decide)
    (hquiet _ (by decide))
  rcases hend (hover (by decide)) with ⟨-, hlive, hstream, -⟩ | ⟨hfalse, -⟩
  · rcases hend' (hover' (by decide)) with ⟨htrue, -⟩ | ⟨hfalse, -, -, hloop, -⟩
    · exact absurd htrue (by decide +kernel)
    · exact ⟨hlive, hstream, hfalse, hloop⟩
  · exact absurd hfalse (by decide +kernel)

end JavaScriptOS.Devices
