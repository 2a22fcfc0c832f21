import Aseman.Lib.Calls
import Aseman.Lib.Result
import Aseman.Ports

/-!
# The realtime log

`aseman-capsule`, `realtime.rs`, and `append_durable` of the node. An event must carry the sequence that
follows the highest one stored for its stream, and a purge removes events by their age, whatever their
place in the stream. When it removes the newest one, the next event takes its sequence again; when it
never does, the sequences of a stream are 1, 2, 3 and so on over the whole run.
-/

namespace Aseman.Realtime

/-! ## The log -/

inductive RetentionClass where
  | transient
  | standard
  | durable
  deriving DecidableEq

/-- A stored event, as far as `append` and `purge_expired` read it. -/
structure LogEvent where
  id : Uuid
  stream : String
  sequence : Nat
  atMillis : Int
  retention : RetentionClass
  deriving DecidableEq

/-- The events, and the keys of the outbox entries. -/
structure Log where
  events : List LogEvent
  outbox : List Uuid
  deriving DecidableEq

def Log.empty : Log := ⟨[], []⟩

def transientMillis : Int := 60 * 60 * 1000

def standardMillis : Int := 7 * 24 * 60 * 60 * 1000

/-- Rows that a query without a bound returns at most. -/
def defaultTake : Nat := 10000

/-- `i64::try_from`. -/
def signed (value : Nat) : Except PortError Nat :=
  if value < 2 ^ 63 then .ok value
  else .error (.failed "invalid storage request: out of range integral type conversion attempted")

def sequences (events : List LogEvent) (stream : String) : List Nat :=
  (events.filter fun e => e.stream = stream).map (·.sequence)

/-- The highest stored sequence of a stream, and the lowest. -/
def bounds (log : Log) (stream : String) : Option Nat × Option Nat :=
  ((sequences log.events stream).max?, (sequences log.events stream).min?)

/-- `append`. The key of an event and of its outbox entry is its id, and the pair of stream and sequence
is unique. -/
def append (log : Log) (e : LogEvent) : Except PortError Log := do
  let sequence ← signed e.sequence
  ensure (sequence = (bounds log e.stream).1.elim 1 (· + 1)) .conflict
  ensure (∀ row ∈ log.events, row.id ≠ e.id) .conflict
  ensure (sequence ∉ sequences log.events e.stream) .conflict
  ensure (e.id ∉ log.outbox) .conflict
  return { events := log.events ++ [e], outbox := log.outbox ++ [e.id] }

/-- The attempts of `append_durable` that are left; `clock` is read in each. -/
def appendAttempts (log : Log) (id : Uuid) (topic : String) :
    List Int → Except PortError (LogEvent × Log)
  | [] => .error .conflict
  | atMillis :: clock =>
    let e : LogEvent :=
      { id, stream := topic, atMillis, retention := .standard
        sequence := min ((bounds log topic).1.getD 0 + 1) (2 ^ 64 - 1) }
    match append log e with
    | .ok log => .ok (e, log)
    | .error .conflict => appendAttempts log id topic clock
    | .error error => .error error

def appendDurable (log : Log) (id : Uuid) (topic : String) (clock : Nat → Int) :
    Except PortError (LogEvent × Log) := do
  ensure (topic ≠ "" ∧ topic.utf8ByteSize ≤ 256) (.failed "realtime topic must be 1-256 bytes")
  appendAttempts log id topic ((List.range 32).map clock)

/-- The filter of `purge_expired`. -/
def expired (nowMillis : Int) (e : LogEvent) : Bool :=
  (e.retention = .transient && e.atMillis < nowMillis - transientMillis) ||
    (e.retention = .standard && e.atMillis < nowMillis - standardMillis)

variable (before : Uuid → Uuid → Bool) (log : Log)

/-- `purge_expired`. The events whose outbox entries go are one page in the order of the records, and
all expired events go. -/
def purgeExpired (nowMillis : Int) : Nat × Log :=
  let found := (log.events.filter (expired nowMillis)).insertionSort fun a b => before a.id b.id
  let ids := (found.take defaultTake).map (·.id)
  if ids.isEmpty then (0, log)
  else
    ((log.events.filter (expired nowMillis)).length,
      { events := log.events.filter fun e => !expired nowMillis e
        outbox := log.outbox.filter fun id => id ∉ ids })

/-! ## Runs -/

inductive Call where
  | append (e : LogEvent)
  | appendDurable (id : Uuid) (topic : String) (clock : Nat → Int)
  | purgeExpired (nowMillis : Int)

inductive Reply where
  | appended (e : LogEvent)
  | purged (count : Nat)

def Call.execute : Call → Except PortError Reply × Log
  | append e =>
    match Realtime.append log e with
    | .ok log => (.ok (.appended e), log)
    | .error error => (.error error, log)
  | appendDurable id topic clock =>
    match Realtime.appendDurable log id topic clock with
    | .ok (e, log) => (.ok (.appended e), log)
    | .error error => (.error error, log)
  | purgeExpired nowMillis =>
    let (count, log) := Realtime.purgeExpired before log nowMillis
    (.ok (.purged count), log)

/-- A call and what it returned. -/
structure Event where
  call : Call
  result : Except PortError Reply

/-- One call. -/
def Step (e : Event) (log' : Log) : Prop := e.call.execute before log = (e.result, log')

def after (calls : List Call) : List Event × Log :=
  callsFrom (Call.execute before) Event.mk log calls

def Event.sequence (stream : String) (e : Event) : Option Nat :=
  match e.result with
  | .ok (.appended event) => if event.stream = stream then some event.sequence else none
  | _ => none

/-- The sequences of the events that were appended to the stream, purged ones included. -/
def appended (stream : String) (es : List Event) : List Nat := es.filterMap (·.sequence stream)

/-- What the purge removes is never the newest event of its stream. -/
def KeepsNewest (call : Call) : Prop :=
  match call with
  | .purgeExpired nowMillis =>
    ∀ e ∈ log.events, expired nowMillis e → ∃ newer ∈ log.events,
      newer.stream = e.stream ∧ e.sequence < newer.sequence ∧ ¬ expired nowMillis newer
  | _ => True

instance (log : Log) (call : Call) : Decidable (KeepsNewest log call) :=
  match call with
  | .append _ => inferInstanceAs (Decidable True)
  | .appendDurable .. => inferInstanceAs (Decidable True)
  | .purgeExpired nowMillis => inferInstanceAs (Decidable (∀ e ∈ log.events,
      expired nowMillis e → ∃ newer ∈ log.events,
        newer.stream = e.stream ∧ e.sequence < newer.sequence ∧ ¬ expired nowMillis newer))

def KeepingStep (e : Event) (log' : Log) : Prop := Step before log e log' ∧ KeepsNewest log e.call

/-! ## What a call does -/

variable {log log' : Log} {e : LogEvent}

theorem append_eq_ok (h : append log e = .ok log') :
    e.sequence = (bounds log e.stream).1.elim 1 (· + 1) ∧ log'.events = log.events ++ [e] := by
  simp only [append, bind_eq_ok, ensure_eq_ok, pure_eq_ok] at h
  obtain ⟨sequence, hsigned, -, hnext, -, -, -, -, -, -, rfl⟩ := h
  have hsame : sequence = e.sequence := by
    unfold signed at hsigned
    split at hsigned
    · exact (Except.ok.inj hsigned).symm
    · cases hsigned
  exact ⟨hsame ▸ hnext, rfl⟩

theorem appendAttempts_eq_ok {id topic clock}
    (h : appendAttempts log id topic clock = .ok (e, log')) : append log e = .ok log' := by
  induction clock with
  | nil => cases h
  | cons atMillis clock ih =>
    simp only [appendAttempts] at h
    split at h
    · next hok => cases h; exact hok
    · exact ih h
    · cases h

/-- **One call**: an event was appended, some were purged, or nothing happened. -/
theorem Step.cases {before e} (h : Step before log e log') :
    (log' = log ∧ ∃ error, e.result = .error error) ∨
      (∃ event, e.result = .ok (.appended event) ∧ append log event = .ok log') ∨
      ∃ nowMillis count, e.call = .purgeExpired nowMillis ∧ e.result = .ok (.purged count) ∧
        log'.events = log.events.filter fun event => !expired nowMillis event := by
  obtain ⟨call, result⟩ := e
  cases call with
  | append event =>
    simp only [Step, Call.execute] at h
    split at h <;> cases h
    · next hok => exact .inr (.inl ⟨event, rfl, hok⟩)
    · next error _ => exact .inl ⟨rfl, error, rfl⟩
  | appendDurable id topic clock =>
    simp only [Step, Call.execute] at h
    split at h <;> cases h
    · next hok =>
      simp only [Realtime.appendDurable, bind_eq_ok, ensure_eq_ok] at hok
      obtain ⟨-, -, hattempts⟩ := hok
      exact .inr (.inl ⟨_, rfl, appendAttempts_eq_ok hattempts⟩)
    · next error _ => exact .inl ⟨rfl, error, rfl⟩
  | purgeExpired nowMillis =>
    simp only [Step, Call.execute, Prod.mk.injEq] at h
    obtain ⟨rfl, rfl⟩ := h
    refine .inr (.inr ⟨nowMillis, _, rfl, rfl, ?_⟩)
    simp only [Realtime.purgeExpired]
    split
    · next hempty =>
      -- nothing has expired, so the filter keeps everything
      have hsorted : (log.events.filter (expired nowMillis)).insertionSort
          (fun a b => before a.id b.id) = [] := by simpa [defaultTake] using hempty
      have hnone : log.events.filter (expired nowMillis) = [] :=
        (hsorted ▸ List.perm_insertionSort _ _).nil_eq.symm
      refine (List.filter_eq_self.mpr fun event hmem => ?_).symm
      simpa using List.filter_eq_nil_iff.mp hnone event hmem
    · rfl

/-! ## The newest event of a stream -/

theorem sequences_append (events : List LogEvent) (e : LogEvent) (stream : String) :
    sequences (events ++ [e]) stream =
      sequences events stream ++ if e.stream = stream then [e.sequence] else [] := by
  unfold sequences
  split <;> simp_all

/-- Of the `n` events that were appended to the stream, the newest is still there. -/
def Newest (n : Nat) (stream : String) (log : Log) : Prop :=
  n = 0 ∧ sequences log.events stream = [] ∨
    n ∈ sequences log.events stream ∧ ∀ k ∈ sequences log.events stream, k ≤ n

variable {n : Nat} {stream : String}

theorem next_of_newest (h : Newest n stream log) :
    (bounds log stream).1.elim 1 (· + 1) = n + 1 := by
  rcases h with ⟨rfl, hnil⟩ | hmax
  · simp [bounds, hnil]
  · have hmax : (bounds log stream).1 = some n := List.max?_eq_some_iff.mpr hmax
    rw [hmax]
    rfl

theorem newest_append (h : append log e = .ok log') (hn : Newest n stream log)
    (hstream : e.stream = stream) : e.sequence = n + 1 ∧ Newest (n + 1) stream log' := by
  obtain ⟨hnext, hevents⟩ := append_eq_ok h
  subst hstream
  have hsequence : e.sequence = n + 1 := hnext.trans (next_of_newest hn)
  have hsequences : sequences log'.events e.stream = sequences log.events e.stream ++ [n + 1] := by
    rw [hevents, sequences_append, if_pos rfl, hsequence]
  refine ⟨hsequence, .inr ?_⟩
  rw [hsequences]
  refine ⟨by simp, fun k hk => ?_⟩
  rcases List.mem_append.mp hk with hk | hk
  · rcases hn with ⟨-, hnil⟩ | ⟨-, hmax⟩
    · simp [hnil] at hk
    · exact (hmax k hk).trans (Nat.le_succ n)
  · exact (List.mem_singleton.mp hk).le

theorem newest_append_of_ne (h : append log e = .ok log') (hn : Newest n stream log)
    (hstream : e.stream ≠ stream) : Newest n stream log' := by
  unfold Newest at *
  rw [(append_eq_ok h).2, sequences_append, if_neg hstream, List.append_nil]
  exact hn

theorem newest_purge {nowMillis}
    (hevents : log'.events = log.events.filter fun e => !expired nowMillis e)
    (hkeeps : KeepsNewest log (.purgeExpired nowMillis)) (hn : Newest n stream log) :
    Newest n stream log' := by
  have hsub : sequences log'.events stream ⊆ sequences log.events stream := by
    intro sequence hmem
    simp only [sequences, hevents, List.mem_map, List.mem_filter] at hmem ⊢
    obtain ⟨e, ⟨⟨he, -⟩, hstream⟩, rfl⟩ := hmem
    exact ⟨e, ⟨he, hstream⟩, rfl⟩
  rcases hn with ⟨rfl, hnil⟩ | ⟨hmem, hmax⟩
  · rw [hnil] at hsub
    exact .inl ⟨rfl, List.subset_nil.mp hsub⟩
  · refine .inr ⟨?_, fun k hk => hmax k (hsub hk)⟩
    simp only [sequences, List.mem_map, List.mem_filter, decide_eq_true_eq] at hmem ⊢
    obtain ⟨e, ⟨he, hstream⟩, rfl⟩ := hmem
    refine ⟨e, ⟨?_, hstream⟩, rfl⟩
    rw [hevents, List.mem_filter]
    refine ⟨he, ?_⟩
    -- if the newest event had expired, a newer one would be stored
    by_contra hexpired
    obtain ⟨newer, hnewer, hsame, hlt, -⟩ := hkeeps e he (by simpa using hexpired)
    have hle := hmax newer.sequence (List.mem_map.mpr
      ⟨newer, List.mem_filter.mpr ⟨hnewer, by simp [hsame, hstream]⟩, rfl⟩)
    omega

/-- What was appended to a stream, and what the log knows of it. -/
def Dense (stream : String) (es : List Event) (log : Log) : Prop :=
  appended stream es = List.range' 1 (appended stream es).length ∧
    Newest (appended stream es).length stream log

theorem appended_snoc (stream : String) (es : List Event) (e : Event) :
    appended stream (es ++ [e]) = appended stream es ++ (e.sequence stream).toList := by
  cases h : e.sequence stream <;> simp [appended, h]

/-- **One call**. -/
theorem Dense.step {before es e} (h : Dense stream es log) (hstep : KeepingStep before log e log') :
    Dense stream (es ++ [e]) log' := by
  obtain ⟨hdense, hnewest⟩ := h
  obtain ⟨hstep, hkeeps⟩ := hstep
  have hnothing (hsequence : e.sequence stream = none)
      (hnewest : Newest (appended stream es).length stream log') : Dense stream (es ++ [e]) log' := by
    unfold Dense
    rw [appended_snoc, hsequence, Option.toList_none, List.append_nil]
    exact ⟨hdense, hnewest⟩
  rcases hstep.cases with ⟨rfl, error, herror⟩ | ⟨event, hok, happend⟩ |
    ⟨nowMillis, count, hcall, hok, hevents⟩
  · exact hnothing (by simp [Event.sequence, herror]) hnewest
  · by_cases hstream : event.stream = stream
    · obtain ⟨hsequence, hnewest'⟩ := newest_append happend hnewest hstream
      have hlast : e.sequence stream = some event.sequence := by simp [Event.sequence, hok, hstream]
      unfold Dense
      rw [appended_snoc, hlast, Option.toList_some, List.length_append, List.length_singleton,
        hsequence]
      refine ⟨?_, hnewest'⟩
      rw [List.range'_1_concat, ← hdense, Nat.add_comm 1]
    · exact hnothing (by simp [Event.sequence, hok, hstream])
        (newest_append_of_ne happend hnewest hstream)
  · exact hnothing (by simp [Event.sequence, hok])
      (newest_purge hevents (by rw [hcall] at hkeeps; exact hkeeps) hnewest)

/-- In every run whose purges keep the newest event of every stream, the sequences of the events that
were appended to a stream are 1, 2, 3 and so on. -/
theorem sequences_never_reused {es : List Event} {log : Log}
    (h : Run (KeepingStep before) .empty es log) (stream : String) :
    appended stream es = List.range' 1 (appended stream es).length := by
  have hdense : Dense stream es log := by
    induction h with
    | nil => exact ⟨rfl, .inl ⟨rfl, rfl⟩⟩
    | snoc _ hstep ih => exact ih.step hstep
  exact hdense.1

/-- An event of the stream `s`, of the time 0. -/
def sampleAppend (id : Uuid) (retention : RetentionClass) (sequence : Nat) : Call :=
  .append { id, stream := "s", sequence, atMillis := 0, retention }

/-- A transient event is the newest of its stream when it expires; the next event of the stream gets its
sequence again. -/
def reusingCalls : List Call :=
  [sampleAppend 1 .transient 1, .purgeExpired 3600001, sampleAppend 2 .transient 1]

theorem purged_sequence_reused :
    Run (Step fun a b => a ≤ b) .empty (after (fun a b => a ≤ b) .empty reusingCalls).1
        (after (fun a b => a ≤ b) .empty reusingCalls).2 ∧
      appended "s" (after (fun a b => a ≤ b) .empty reusingCalls).1 = [1, 1] := by
  refine ⟨run_callsFrom (fun _ _ => rfl) _ _, ?_⟩
  decide +kernel

/-- The transient event is purged when a durable one has followed it. -/
def keepingCalls : List Call :=
  [sampleAppend 1 .transient 1, sampleAppend 2 .durable 2, .purgeExpired 3600001,
    sampleAppend 3 .transient 3]

theorem sequences_never_reused_sample :
    appended "s" (after (fun a b => a ≤ b) .empty keepingCalls).1 = [1, 2, 3] ∧
      (after (fun a b => a ≤ b) .empty keepingCalls).2.events.length = 2 ∧
      appended "s" (after (fun a b => a ≤ b) .empty keepingCalls).1 =
        List.range' 1 (appended "s" (after (fun a b => a ≤ b) .empty keepingCalls).1).length := by
  have hkeep : CallsMeet (Call.execute fun a b => a ≤ b) KeepsNewest .empty keepingCalls := by
    decide +kernel
  have hrun : Run (KeepingStep fun a b => a ≤ b) .empty
      (after (fun a b => a ≤ b) .empty keepingCalls).1
      (after (fun a b => a ≤ b) .empty keepingCalls).2 :=
    run_callsFrom_of_meet (fun _ _ hkeeps => ⟨rfl, hkeeps⟩) hkeep
  exact ⟨by decide +kernel, by decide +kernel, sequences_never_reused _ hrun "s"⟩

end Aseman.Realtime
