import Mathlib.Data.List.Forall2
import WordMachine.Proofs.Isolation
import WordMachine.Proofs.Listeners
import WordMachine.Proofs.Reading

/-!
# Sinks observe and never influence

The machine before a sink (`Watched`) hands records over in the middle of a run, and a sink may do
with them what it likes. Sink and log only listen, so they are told the trace of the run, event by
event (`Watched.eval_eq`). Here it is shown what they make of it:

* `Log.recorded_injective`: the log shows a record in full;
* `log_told_of_silent` and `log_told_of_posting`: the log after a trace, for a sink that adds nothing
  to it and for one that adds an event for every record;
* `sinks_only_observe` says what this means for sinks that keep records, write them or lose them,
  and for no sink.
-/

namespace WordMachine

/-! ## 1. The log shows records in full -/

namespace Log

/-- What stands behind a word in a list of words. -/
def tailText : List Word → List Char
  | [] => []
  | words => ',' :: ' ' :: (", ".intercalate (words.map Word.decimal)).toList

theorem toList_words (w : Word) (rest : List Word) :
    (", ".intercalate ((w :: rest).map Word.decimal)).toList =
      w.decimal.toList ++ tailText rest := by
  cases rest with
  | nil => simp [tailText]
  | cons w' rest => simp [tailText]

theorem decimal_ne_nil (w : Word) : w.decimal.toList ≠ [] := by
  rw [Word.decimal, Text.toList_toString]
  exact Nat.toDigits_ne_nil

theorem toString_inj {n n' : Nat} (h : (toString n).toList = (toString n').toList) : n = n' := by
  rw [Text.toList_toString, Text.toList_toString] at h
  rw [← @Nat.ofDigitChars_ten_toDigits n, h, Nat.ofDigitChars_ten_toDigits]

theorem decimal_inj {w w' : Word} (h : w.decimal.toList = w'.decimal.toList) : w = w' :=
  Word.ext (toString_inj h)

/-- The digits of a word end where something else begins. -/
theorem span_word (w : Word) (rest : List Word) :
    (w.decimal.toList ++ tailText rest).takeWhile Text.isDigit = w.decimal.toList ∧
      (w.decimal.toList ++ tailText rest).dropWhile Text.isDigit = tailText rest := by
  have hdigits : ∀ c ∈ w.decimal.toList, Text.isDigit c = true :=
    fun _ hc => Text.isDigit_of_mem_toString hc
  rw [List.takeWhile_append_of_pos hdigits, List.dropWhile_append_of_pos hdigits]
  cases rest with
  | nil => exact ⟨List.append_nil _, rfl⟩
  | cons w' rest => exact ⟨List.append_nil _, rfl⟩

theorem words_inj {words words' : List Word}
    (h : (", ".intercalate (words.map Word.decimal)).toList =
      (", ".intercalate (words'.map Word.decimal)).toList) : words = words' := by
  induction words generalizing words' with
  | nil =>
      cases words' with
      | nil => rfl
      | cons w' rest' =>
          rw [toList_words] at h
          exact absurd (List.append_eq_nil_iff.1 h.symm).1 (decimal_ne_nil w')
  | cons w rest ih =>
      cases words' with
      | nil =>
          rw [toList_words] at h
          exact absurd (List.append_eq_nil_iff.1 h).1 (decimal_ne_nil w)
      | cons w' rest' =>
          rw [toList_words, toList_words] at h
          have hw : w = w' := by
            refine decimal_inj ?_
            rw [← (span_word w rest).1, h, (span_word w' rest').1]
          have htail : tailText rest = tailText rest' := by
            rw [← (span_word w rest).2, h, (span_word w' rest').2]
          have hrest : rest = rest' := by
            cases rest with
            | nil =>
                cases rest' with
                | nil => rfl
                | cons _ _ => cases htail
            | cons _ _ =>
                cases rest' with
                | nil => cases htail
                | cons _ _ => exact ih (List.cons.inj (List.cons.inj htail).2).2
          rw [hw, hrest]

theorem ofWords_inj {words words' : List Word} (h : ofWords words = ofWords words') :
    words = words' := by
  have htext := congrArg String.toList (FieldValue.plain.inj h)
  rw [String.toList_append, String.toList_append, String.toList_append, String.toList_append,
    List.append_left_inj, List.append_right_inj] at htext
  exact words_inj htext

theorem ofNat_inj {n n' : Nat} (h : ofNat n = ofNat n') : n = n' :=
  toString_inj (congrArg String.toList (FieldValue.plain.inj h))

/-- **The event of a record carries the record**: its source, its constants and its stack. -/
theorem recorded_injective : Function.Injective recorded := by
  intro r r' h
  have hmessage : (recorded r).message = (recorded r').message := congrArg Event.message h
  have hfields : (recorded r).fields = (recorded r').fields := congrArg Event.fields h
  cases r with
  | stack words =>
      cases r' with
      | stack words' =>
          simp only [recorded, List.cons.injEq, Prod.mk.injEq, true_and, and_true] at hfields
          rw [ofWords_inj hfields]
      | state source' constants' words' =>
          exact absurd (show "debug stack" = "debug state" from hmessage) (by decide)
  | state source constants words =>
      cases r' with
      | stack words' =>
          exact absurd (show "debug state" = "debug stack" from hmessage) (by decide)
      | state source' constants' words' =>
          simp only [recorded, List.cons.injEq, Prod.mk.injEq, true_and, and_true] at hfields
          obtain ⟨hsource, hconstants, hwords⟩ := hfields
          rw [ofNat_inj hsource, ofWords_inj hconstants, ofWords_inj hwords]

end Log

namespace Machine.Watched

variable {σ : Type}

/-! ## 2. What sinks and the log are told -/

/-- The events of a log that are about debug records. -/
def debugEvents (log : Array Log.Event) : List Log.Event :=
  log.toList.filter (·.target = Log.debugTarget)

/-- The other events of a log. -/
def otherEvents (log : Array Log.Event) : List Log.Event :=
  log.toList.filter (·.target ≠ Log.debugTarget)

/-- The sink fails at every record, and leaves the log alone. -/
def Sink.AlwaysFails (sink : Sink σ) : Prop :=
  ∀ r told, ∃ reason own, sink r told = .error reason { told with sink := own }

/-- The event warns that the record is gone, and says why the sink did not take it. -/
structure Sink.Drops (sink : Sink σ) (r : Record) (event : Log.Event) : Prop where
  level : event.level = .warn
  target : event.target = "wordvm::vm::debug"
  message : event.message = "debug sink failed; record dropped"
  /-- The one field is the reason with which the sink failed at the record. -/
  fields : ∃ told reason told', sink r told = .error reason told' ∧
    event.fields = [("error", .plain reason)]

section Told

variable {sink : Sink σ}

/-- The state of a sink hangs on the records only. -/
theorem sink_told (put : σ → Record → σ)
    (h : ∀ r told, (sink.deliver r told).sink = put told.sink r) (trace : List Machine.Event)
    (told : Told σ) :
    (trace.foldl (observe sink) told).sink = (records trace).foldl put told.sink := by
  induction trace generalizing told with
  | nil => rfl
  | cons event rest ih =>
      rw [List.foldl_cons, ih]
      cases event with
      | record r => rw [observe, h]; rfl
      | _ => rfl

theorem log_observe (told : Told σ) {event : Machine.Event} (h : ∀ r, event ≠ .record r) :
    (observe sink told event).log.toList = told.log.toList ++ Log.eventsOf .taken event := by
  cases event with
  | record r => exact absurd rfl (h r)
  | enter frame => exact (List.append_nil _).symm
  | _ => exact Array.toList_push

/-- A sink that adds nothing to the log. -/
theorem log_told_of_silent (h : ∀ r told, (sink.deliver r told).log = told.log)
    (trace : List Machine.Event) (told : Told σ) :
    (trace.foldl (observe sink) told).log.toList =
      told.log.toList ++ Log.ofTrace .taken trace := by
  induction trace generalizing told with
  | nil => exact (List.append_nil _).symm
  | cons event rest ih =>
      have hevent : (observe sink told event).log.toList =
          told.log.toList ++ Log.eventsOf .taken event := by
        cases event with
        | record r => rw [observe, h]; exact (List.append_nil _).symm
        | _ => exact log_observe told fun _ => Machine.Event.noConfusion
      rw [List.foldl_cons, ih, hevent, List.append_assoc]
      rfl

/-- Beside records, nothing that happens is logged as one. -/
theorem target_of_mem_eventsOf {happened : Machine.Event} {event : Log.Event}
    (h : event ∈ Log.eventsOf .taken happened) : event.target ≠ Log.debugTarget := by
  have htarget : event.target = Log.evalTarget := by
    cases happened with
    | enter frame => cases h
    | record r => cases h
    | _ => rw [List.mem_singleton.1 h]; rfl
  rw [htarget]
  decide

theorem target_of_mem_ofTrace {trace : List Machine.Event} {event : Log.Event}
    (h : event ∈ Log.ofTrace .taken trace) : event.target ≠ Log.debugTarget := by
  obtain ⟨happened, -, h⟩ := List.mem_flatMap.1 h
  exact target_of_mem_eventsOf h

theorem filter_of_target_ne {events : List Log.Event}
    (h : ∀ event ∈ events, event.target ≠ Log.debugTarget) :
    events.filter (·.target = Log.debugTarget) = [] ∧
      events.filter (·.target ≠ Log.debugTarget) = events := by
  constructor
  · exact List.filter_eq_nil_iff.2 fun event hevent => by simpa using h event hevent
  · exact List.filter_eq_self.2 fun event hevent => by simpa using h event hevent

/-- The log of an evaluation before a sink that adds nothing to it. -/
theorem events_of_silent (h : ∀ r told, (sink.deliver r told).log = told.log)
    (trace : List Machine.Event) (own : σ) :
    debugEvents (trace.foldl (observe sink) { sink := own }).log = [] ∧
      otherEvents (trace.foldl (observe sink) { sink := own }).log =
        Log.ofTrace .taken trace := by
  have hlog : (trace.foldl (observe sink) { sink := own }).log.toList = Log.ofTrace .taken trace :=
    log_told_of_silent h trace { sink := own }
  unfold debugEvents otherEvents
  rw [hlog]
  exact filter_of_target_ne fun _ => target_of_mem_ofTrace

/-- A sink that adds one event to the log for every record. The induction carries the log from
before along. -/
theorem log_told_of_posting {Q : Record → Log.Event → Prop}
    (h : ∀ r told, ∃ event, (sink.deliver r told).log = told.log.push event ∧
      event.target = Log.debugTarget ∧ Q r event)
    (trace : List Machine.Event) (told : Told σ) :
    ∃ events, (trace.foldl (observe sink) told).log.toList = told.log.toList ++ events ∧
      List.Forall₂ Q (records trace) (events.filter (·.target = Log.debugTarget)) ∧
      events.filter (·.target ≠ Log.debugTarget) = Log.ofTrace .taken trace := by
  induction trace generalizing told with
  | nil => exact ⟨[], (List.append_nil _).symm, .nil, rfl⟩
  | cons happened rest ih =>
      obtain ⟨events, hlog, hdebug, hother⟩ := ih (observe sink told happened)
      by_cases hrecord : ∃ r, happened = .record r
      · obtain ⟨r, rfl⟩ := hrecord
        obtain ⟨event, hpost, htarget, hq⟩ := h r told
        refine ⟨event :: events, ?_, ?_, ?_⟩
        · have hpost' : (observe sink told (.record r)).log.toList = told.log.toList ++ [event] := by
            rw [observe, hpost, Array.toList_push]
          rw [List.foldl_cons, hlog, hpost', List.append_assoc, List.singleton_append]
        · rw [List.filter_cons_of_pos (by simpa using htarget)]
          exact .cons hq hdebug
        · rw [List.filter_cons_of_neg (by simpa using htarget), hother]
          rfl
      · have hother' : ∀ r, happened ≠ .record r := fun r heq => hrecord ⟨r, heq⟩
        obtain ⟨hnone, hall⟩ := filter_of_target_ne fun (event : Log.Event) =>
          @target_of_mem_eventsOf happened event
        have hrecords : records (happened :: rest) = records rest := by
          cases happened with
          | record r => exact absurd rfl (hother' r)
          | _ => rfl
        refine ⟨Log.eventsOf .taken happened ++ events, ?_, ?_, ?_⟩
        · rw [List.foldl_cons, hlog, log_observe told hother', List.append_assoc]
        · rw [List.filter_append, hnone, hrecords]
          exact hdebug
        · rw [List.filter_append, hall, hother]
          rfl

theorem events_of_posting {Q : Record → Log.Event → Prop}
    (h : ∀ r told, ∃ event, (sink.deliver r told).log = told.log.push event ∧
      event.target = Log.debugTarget ∧ Q r event)
    (trace : List Machine.Event) (own : σ) :
    List.Forall₂ Q (records trace)
        (debugEvents (trace.foldl (observe sink) { sink := own }).log) ∧
      otherEvents (trace.foldl (observe sink) { sink := own }).log =
        Log.ofTrace .taken trace := by
  obtain ⟨events, hlog, hdebug, hother⟩ := log_told_of_posting h trace { sink := own }
  unfold debugEvents otherEvents
  rw [hlog]
  exact ⟨hdebug, hother⟩

end Told

/-! ## 3. The sinks -/

theorem recording_sink (trace : List Machine.Event) :
    (trace.foldl (observe .recording) { sink := #[] }).sink.toList = records trace := by
  rw [sink_told Array.push (fun _ _ => rfl)]
  simp

/-- The sink that keeps records has got those of the trace. -/
theorem sink_eval_recording (e : Expression) (host : Host) (entry : Nat) (inputs : List Word) :
    (eval (some .recording) #[] e host entry inputs).told.sink.toList =
      records (Machine.eval e host entry inputs).trace := by
  rw [eval_eq]
  exact recording_sink _

theorem lines_sink (trace : List Machine.Event) :
    (trace.foldl (observe .lines) { sink := "" }).sink = Log.recordLines trace := by
  have hput : ∀ r told, (Sink.lines.deliver r told).sink = told.sink ++ r.line :=
    fun _ _ => String.append_assoc
  rw [sink_told (fun text r => text ++ r.line) hput, Log.recordLines, String.join_eq_foldl,
    List.foldl_map]

/-- **A sink that always fails** makes one warning of every record. -/
theorem Sink.AlwaysFails.posts {sink : Sink σ} (h : sink.AlwaysFails) (r : Record) (told : Told σ) :
    ∃ event, (sink.deliver r told).log = told.log.push event ∧
      event.target = Log.debugTarget ∧ sink.Drops r event := by
  obtain ⟨reason, own, hfail⟩ := h r told
  refine ⟨Log.dropped reason, ?_, rfl, rfl, rfl, rfl, told, reason, _, hfail, rfl⟩
  unfold Sink.deliver
  rw [hfail]
  rfl

theorem logging_posts (r : Record) (told : Told σ) :
    ∃ event, (Sink.logging.deliver r told).log = told.log.push event ∧
      event.target = Log.debugTarget ∧ event = Log.recorded r := by
  refine ⟨Log.recorded r, rfl, ?_, rfl⟩
  cases r <;> rfl

/-- **Sinks observe and never influence.** Whatever sink an evaluation is given, and also without
one, its result is that of the machine that knows no sink, words or fault. The sink that keeps
records gets those of the trace, in order, also when the evaluation ends with a fault. Next to it:

* the sink that writes lines has written the line of each of these records, one after the other;
* a sink that always fails has caused one warning for each of them, and none besides;
* without a sink, the log has one event for each of them, which carries the record in full;
* the log is otherwise the same with all of them. -/
theorem sinks_only_observe {failing : Sink σ} (hfails : failing.AlwaysFails) (own : σ)
    (e : Expression) (host : Host) (entry : Nat) (inputs : List Word) :
    let outcome := Machine.eval e host entry inputs
    let kept := (eval (some .recording) #[] e host entry inputs).told
    let written := (eval (some .lines) "" e host entry inputs).told
    let lost := (eval (some failing) own e host entry inputs).told
    let logged := (eval none () e host entry inputs).told
    (∀ (τ : Type) (sink : Option (Sink τ)) (own : τ),
      (eval sink own e host entry inputs).result = outcome.result) ∧
    kept.sink.toList = records outcome.trace ∧
    written.sink = String.join (kept.sink.toList.map Record.line) ∧
    List.Forall₂ failing.Drops kept.sink.toList (debugEvents lost.log) ∧
    debugEvents logged.log = kept.sink.toList.map Log.recorded ∧
    Function.Injective Log.recorded ∧
    debugEvents kept.log = [] ∧ debugEvents written.log = [] ∧
    otherEvents written.log = otherEvents kept.log ∧
    otherEvents lost.log = otherEvents kept.log ∧
    otherEvents logged.log = otherEvents kept.log := by
  intro outcome kept written lost logged
  have hkept : kept = outcome.trace.foldl (observe .recording) { sink := #[] } :=
    congrArg Ending.told (eval_eq ..)
  have hwritten : written = outcome.trace.foldl (observe .lines) { sink := "" } :=
    congrArg Ending.told (eval_eq ..)
  have hlost : lost = outcome.trace.foldl (observe failing) { sink := own } :=
    congrArg Ending.told (eval_eq ..)
  have hlogged : logged = outcome.trace.foldl (observe .logging) { sink := () } :=
    congrArg Ending.told (eval_eq ..)
  have hrecords : kept.sink.toList = records outcome.trace := sink_eval_recording ..
  have hkeptLog := events_of_silent (fun _ _ => rfl : ∀ r told,
    (Sink.recording.deliver r told).log = told.log) outcome.trace #[]
  have hwrittenLog := events_of_silent (fun _ _ => rfl : ∀ r told,
    (Sink.lines.deliver r told).log = told.log) outcome.trace ""
  have hlostLog := events_of_posting hfails.posts outcome.trace own
  have hloggedLog := events_of_posting logging_posts outcome.trace ()
  rw [hrecords, hwritten, hlost, hlogged, hkept]
  refine ⟨fun τ sink own => result_eval .., rfl, lines_sink _, hlostLog.1, ?_,
    Log.recorded_injective, hkeptLog.1, hwrittenLog.1, hwrittenLog.2.trans hkeptLog.2.symm,
    hlostLog.2.trans hkeptLog.2.symm, hloggedLog.2.trans hkeptLog.2.symm⟩
  rw [← List.forall₂_eq_eq_eq, List.forall₂_map_right_iff]
  exact hloggedLog.1.flip

/-- Lets two records out, twice, and then wants a word that is not there. -/
def overheard : Expression where
  constants := [Word.one]
  code :=
    [[⟨.readMemory, 1⟩, ⟨.loopN, 0x2111⟩, ⟨.apply .add, 2⟩],
     [⟨.debug, 0⟩, ⟨.debug, 1⟩]]

/-- The records of `overheard`. -/
def overheard.records : List Record :=
  [.state 1 [Word.one] [Word.one], .stack [Word.one],
   .state 1 [Word.one] [Word.one], .stack [Word.one]]

/-- The fault at the end takes nothing back. -/
theorem sinks_only_observe_overheard :
    (Sink.refusing "sink closed" : Sink Unit).AlwaysFails ∧
      (eval (some .recording) #[] overheard .null 0 []).result =
        .error (.fault (.stackUnderflow 0 2 2 1)) ∧
      (eval (some .recording) #[] overheard .null 0 []).told.sink.toList = overheard.records ∧
      (eval (some .lines) "" overheard .null 0 []).told.sink =
        String.join (overheard.records.map Record.line) ∧
      (debugEvents (eval (some (.refusing "sink closed")) () overheard .null 0 []).told.log).length =
        4 ∧
      debugEvents (eval none () overheard .null 0 []).told.log =
        overheard.records.map Log.recorded := by
  have h : Loaded overheard := @Loaded.ofSources _ [Word.one] overheard.sources rfl
  have hfails : (Sink.refusing "sink closed" : Sink Unit).AlwaysFails := fun _ told =>
    ⟨"sink closed", told.sink, rfl⟩
  obtain ⟨hresult, hkept, hwritten, hlost, hlogged, -⟩ :=
    sinks_only_observe hfails () overheard .null 0 []
  have hrecords : records (Machine.eval overheard .null 0 []).trace = overheard.records := by
    rw [eval_eq_outcome h.wellFormed .null (by decide) (by decide)]
    decide +kernel
  have hfault : (Machine.eval overheard .null 0 []).result =
      .error (.fault (.stackUnderflow 0 2 2 1)) := by
    rw [eval_eq_outcome h.wellFormed .null (by decide) (by decide)]
    decide +kernel
  rw [hrecords] at hkept
  rw [hkept] at hwritten hlost hlogged
  exact ⟨hfails, (hresult _ _ _).trans hfault, hkept, hwritten, hlost.length_eq.symm, hlogged⟩

end Machine.Watched

end WordMachine
