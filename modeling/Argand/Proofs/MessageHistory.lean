import Argand.Log
import Argand.Proofs.Lines
import Mathlib.Data.List.Forall2

/-!
# The history behind the log

The buffer of a log is compared with two simpler things.  One is a queue with two ends: a message
joins at one end, the message at the other end drops out if there is no more room, and the queue is
emptied from the end where messages join.  The other is the history of all calls: the messages that
wait are those that were logged since the log was last cleared or emptied, up to the most recent
twenty.

## Main definitions

* `LogCall`, `runCalls` — the calls of a log, and the answers to a row of them.
* `LogCall.onLog`, `LogCall.onQueue` — what a call does to a log and to a queue.
* `waiting calls` — the messages logged since the log was last cleared or emptied, the oldest first.
* `LinesOf m ls` — the lines of a message: its pieces between line feeds, without blanks at their
  ends, each with the level of the message.
* `HandedOver ms ls` — the lines of some messages, one message after the other.

## Main results

* `MessageQueue.reverse_append`, `MessageQueue.drain_eq` — a queue does what a buffer does.
* `runCalls_onQueue` — **a log answers like a queue with two ends.**
* `buffer_runCalls` — **the buffer holds the end of the history.**
* `coalesce_hands_over_history` — what is handed over, and what is left, after any calls.
-/

namespace Argand

/-! ### Calls -/

/-- A call of a log. -/
inductive LogCall
  | report (r : Report)
  | clear
  | coalesce
  deriving DecidableEq, Repr

/-- What is handed over: how many messages, and their lines. -/
abbrev HandOver := Nat × List Message

/-- The answers to calls one after the other, and the state after them. -/
def runCalls {σ : Type} (step : σ → LogCall → Option HandOver × σ) (s : σ) :
    List LogCall → List (Option HandOver) × σ
  | [] => ([], s)
  | c :: rest =>
    let (answer, t) := step s c
    let (answers, u) := runCalls step t rest
    (answer :: answers, u)

section Run

variable {σ τ : Type} (step : σ → LogCall → Option HandOver × σ)

theorem runCalls_cons (s : σ) (c : LogCall) (rest : List LogCall) :
    runCalls step s (c :: rest) =
      ((step s c).1 :: (runCalls step (step s c).2 rest).1,
        (runCalls step (step s c).2 rest).2) := rfl

theorem runCalls_append (s : σ) (calls more : List LogCall) :
    runCalls step s (calls ++ more) =
      ((runCalls step s calls).1 ++ (runCalls step (runCalls step s calls).2 more).1,
        (runCalls step (runCalls step s calls).2 more).2) := by
  induction calls generalizing s with
  | nil => rfl
  | cons c rest ih =>
    rw [List.cons_append, runCalls_cons, ih, runCalls_cons]
    rfl

theorem length_runCalls (s : σ) (calls : List LogCall) :
    (runCalls step s calls).1.length = calls.length := by
  induction calls generalizing s with
  | nil => rfl
  | cons c rest ih => exact congrArg (· + 1) (ih _)

/-- The answer to a call is that of the state before it. -/
theorem getElem?_runCalls (s : σ) {calls : List LogCall} {k : Nat} {c : LogCall}
    (h : calls[k]? = some c) :
    (runCalls step s calls).1[k]? = some (step (runCalls step s (calls.take k)).2 c).1 ∧
      (runCalls step s (calls.take (k + 1))).2 = (step (runCalls step s (calls.take k)).2 c).2 := by
  obtain ⟨hk, rfl⟩ := List.getElem?_eq_some_iff.mp h
  have hsplit : calls = calls.take k ++ calls[k] :: calls.drop (k + 1) := by
    rw [← List.drop_eq_getElem_cons hk, List.take_append_drop]
  have hlength : (runCalls step s (calls.take k)).1.length = k := by
    rw [length_runCalls, List.length_take, Nat.min_eq_left (Nat.le_of_lt hk)]
  constructor
  · conv_lhs => rw [hsplit, runCalls_append]
    rw [List.getElem?_append_right (by omega), hlength, Nat.sub_self]
    rfl
  · rw [List.take_succ_eq_append_getElem hk, runCalls_append]
    rfl

/-- States that stay in a relation give the same answers. -/
theorem runCalls_congr {step' : τ → LogCall → Option HandOver × τ} {R : σ → τ → Prop}
    (hstep : ∀ s t c, R s t → (step s c).1 = (step' t c).1 ∧ R (step s c).2 (step' t c).2)
    {s : σ} {t : τ} (h : R s t) (calls : List LogCall) :
    (runCalls step s calls).1 = (runCalls step' t calls).1 ∧
      R (runCalls step s calls).2 (runCalls step' t calls).2 := by
  induction calls generalizing s t with
  | nil => exact ⟨rfl, h⟩
  | cons c rest ih =>
    obtain ⟨hanswer, hstate⟩ := hstep s t c h
    obtain ⟨hanswers, hend⟩ := ih hstate
    exact ⟨congrArg₂ List.cons hanswer hanswers, hend⟩

end Run

/-- What a call does to a log, and what it answers. -/
def LogCall.onLog (l : Log) : LogCall → Option HandOver × Log
  | .report r => (none, l.record r)
  | .clear => (none, l.clear)
  | .coalesce => (some l.coalesce.1, l.coalesce.2)

/-! ### Queues with two ends -/

namespace MessageQueue

/-- A message joins a queue, the oldest first; if there is no more room, the oldest drops out. -/
def append (q : List Message) (m : Message) : List Message :=
  if q.length < Log.capacity then q ++ [m] else q.tail ++ [m]

/-- The newest message leaves the queue and its lines are handed over, until the queue is empty. -/
def drain (q : List Message) : HandOver :=
  match _h : q.getLast? with
  | none => (0, [])
  | some m =>
    let (count, lines) := drain q.dropLast
    (count + 1, m.lines ++ lines)
termination_by q.length
decreasing_by
  have hne : q ≠ [] := by
    rintro rfl
    cases _h
  have hpos := List.length_pos_iff.mpr hne
  rw [List.length_dropLast]
  omega

theorem drain_concat (q : List Message) (m : Message) :
    drain (q ++ [m]) = ((drain q).1 + 1, m.lines ++ (drain q).2) := by
  rw [drain]
  split
  · next hnone => simp at hnone
  · next last hlast =>
    rw [List.getLast?_concat] at hlast
    obtain rfl := Option.some.inj hlast
    rw [List.dropLast_concat]

/-- A queue is emptied like a buffer. -/
theorem drain_eq (q : List Message) : drain q = (q.length, q.reverse.flatMap (·.lines)) := by
  induction q using List.reverseRecOn with
  | nil =>
    rw [drain]
    rfl
  | append_singleton q m ih =>
    rw [drain_concat, ih, List.length_append, List.reverse_concat, List.flatMap_cons]
    rfl

/-- The messages of a queue that is not too long, with one more, are those of a buffer. -/
theorem reverse_append {q : List Message} (hq : q.length ≤ Log.capacity) (m : Message) :
    (append q m).reverse = (m :: q.reverse).take Log.capacity ∧
      (append q m).length ≤ Log.capacity := by
  rw [append]
  split
  · next hroom =>
    refine ⟨?_, ?_⟩
    · rw [List.reverse_concat, List.take_of_length_le]
      rw [List.length_cons, List.length_reverse]
      exact hroom
    · rw [List.length_append]
      exact hroom
  · next hfull =>
    cases q with
    | nil => exact absurd (by decide) hfull
    | cons oldest rest =>
      have hrest : rest.length = 19 := by
        rw [List.length_cons, Log.capacity] at hq hfull
        omega
      refine ⟨?_, ?_⟩
      · rw [List.tail_cons, List.reverse_concat, Log.capacity, List.take_succ_cons,
          List.reverse_cons, List.take_left' (by rw [List.length_reverse, hrest])]
      · rw [List.tail_cons, List.length_append, hrest]
        exact Nat.le_refl _

end MessageQueue

/-- What a call does to a queue, and what it answers. -/
def LogCall.onQueue (q : List Message) : LogCall → Option HandOver × List Message
  | .report r =>
    match r.message? with
    | some m => (none, MessageQueue.append q m)
    | none => (none, q)
  | .clear => (none, [])
  | .coalesce => (some (MessageQueue.drain q), [])

/-- The buffer of a log has the messages of a queue, the newest first. -/
def Log.Mirrors (l : Log) (q : List Message) : Prop :=
  l.buffer = q.reverse ∧ q.length ≤ Log.capacity

/-- **A call does the same to a log and to a queue.** -/
theorem LogCall.onLog_onQueue {l : Log} {q : List Message} (c : LogCall) (h : l.Mirrors q) :
    (c.onLog l).1 = (c.onQueue q).1 ∧ (c.onLog l).2.Mirrors (c.onQueue q).2 := by
  obtain ⟨hbuffer, hlength⟩ := h
  cases c with
  | report r =>
    rw [onLog, onQueue, Log.record]
    cases r.message? with
    | none => exact ⟨rfl, hbuffer, hlength⟩
    | some m =>
      obtain ⟨hreverse, hle⟩ := MessageQueue.reverse_append hlength m
      refine ⟨rfl, ?_, hle⟩
      rw [hreverse, ← hbuffer]
      rfl
  | clear => exact ⟨rfl, rfl, Nat.zero_le _⟩
  | coalesce =>
    refine ⟨?_, rfl, Nat.zero_le _⟩
    rw [onLog, onQueue, Log.coalesce, MessageQueue.drain_eq, hbuffer, List.length_reverse]

/-- **A log answers like a queue with two ends.** -/
theorem runCalls_onQueue (calls : List LogCall) :
    (runCalls LogCall.onLog .empty calls).1 = (runCalls LogCall.onQueue [] calls).1 ∧
      (runCalls LogCall.onLog .empty calls).2.Mirrors (runCalls LogCall.onQueue [] calls).2 := by
  have hempty : Log.empty.Mirrors [] := ⟨rfl, Nat.zero_le _⟩
  exact runCalls_congr LogCall.onLog (fun _ _ c h => c.onLog_onQueue h) hempty calls

/-! ### The history -/

/-- Whether something is logged. -/
def LogCall.isReport : LogCall → Bool
  | .report _ => true
  | _ => false

/-- The message that is logged to be handed over. -/
def LogCall.message? : LogCall → Option Message
  | .report r => r.message?
  | _ => none

/-- The messages logged since the log was last cleared or emptied, the oldest first. -/
def waiting (calls : List LogCall) : List Message :=
  (calls.rtakeWhile LogCall.isReport).filterMap LogCall.message?

theorem waiting_concat_report (calls : List LogCall) (r : Report) :
    waiting (calls ++ [.report r]) = waiting calls ++ r.message?.toList := by
  rw [waiting, List.rtakeWhile_concat_pos _ _ _ rfl, List.filterMap_append, waiting]
  congr 1

theorem waiting_concat_of_not_report (calls : List LogCall) {c : LogCall}
    (hc : c.isReport = false) : waiting (calls ++ [c]) = [] := by
  rw [waiting, List.rtakeWhile_concat_neg _ _ _ (by rw [hc]; exact Bool.false_ne_true)]
  rfl

/-- **The buffer holds the end of the history.** -/
theorem buffer_runCalls (calls : List LogCall) :
    (runCalls LogCall.onLog .empty calls).2.buffer =
      (waiting calls).reverse.take Log.capacity := by
  induction calls using List.reverseRecOn with
  | nil => rfl
  | append_singleton calls c ih =>
    have hlast : (runCalls LogCall.onLog .empty (calls ++ [c])).2 =
        (c.onLog (runCalls LogCall.onLog .empty calls).2).2 := by
      rw [runCalls_append]
      rfl
    rw [hlast]
    cases c with
    | report r =>
      rw [waiting_concat_report, LogCall.onLog, Log.record]
      cases r.message? with
      | none => rw [Option.toList_none, List.append_nil, ih]
      | some m =>
        rw [Option.toList_some, List.reverse_concat, Log.buffer_push, ih, Log.capacity,
          List.take_succ_cons, List.take_succ_cons, List.take_take]
        rfl
    | clear =>
      rw [waiting_concat_of_not_report calls rfl]
      rfl
    | coalesce =>
      rw [waiting_concat_of_not_report calls rfl]
      rfl

/-! ### Lines -/

/-- The lines of a message: its pieces between line feeds, without blanks at their ends, each with
the level of the message. -/
def LinesOf (m : Message) (ls : List Message) : Prop :=
  ∃ pieces : List (List Char), pieces ≠ [] ∧ (∀ piece ∈ pieces, '\n' ∉ piece) ∧
    List.intercalate ['\n'] pieces = m.text.toList ∧
    List.Forall₂ (fun piece l => l.level = m.level ∧ Text.Stripped piece l.text.toList) pieces ls

/-- The lines of some messages, one message after the other. -/
def HandedOver (ms ls : List Message) : Prop :=
  ∃ groups, List.Forall₂ LinesOf ms groups ∧ ls = groups.flatten

theorem linesOf_lines (m : Message) : LinesOf m m.lines := by
  refine ⟨Text.splitAtNewlines m.text.toList, Text.splitAtNewlines_ne_nil _,
    fun piece => Text.newline_notMem_of_mem_splitAtNewlines, Text.intercalate_splitAtNewlines _, ?_⟩
  rw [Message.lines, List.forall₂_map_right_iff, List.forall₂_same]
  intro piece _
  refine ⟨rfl, ?_⟩
  rw [String.toList_ofList]
  exact Text.stripped_trim piece

theorem handedOver_flatMap_lines (ms : List Message) : HandedOver ms (ms.flatMap (·.lines)) := by
  refine ⟨ms.map (·.lines), ?_, List.flatMap_def⟩
  rw [List.forall₂_map_right_iff, List.forall₂_same]
  exact fun m _ => linesOf_lines m

/-- **What is handed over is the end of the history.**  After any calls the buffer holds at most
twenty messages.  A call that empties the log hands over the messages that were logged since it was
last cleared or emptied, but only the twenty most recent ones, the newest first and each with its
lines in their order; it answers how many messages these are, and leaves nothing.  All other calls
hand over nothing.  A queue with two ends gives the same answers. -/
theorem coalesce_hands_over_history (calls : List LogCall) :
    (runCalls LogCall.onLog .empty calls).2.buffer.length ≤ 20 ∧
    (∀ k : Nat, calls[k]? = some .coalesce → ∃ lines,
      (runCalls LogCall.onLog .empty calls).1[k]? =
        some (some (min 20 (waiting (calls.take k)).length, lines)) ∧
      HandedOver ((waiting (calls.take k)).reverse.take 20) lines ∧
      (runCalls LogCall.onLog .empty (calls.take (k + 1))).2.buffer = []) ∧
    (∀ (k : Nat) (c : LogCall), calls[k]? = some c → c ≠ .coalesce →
      (runCalls LogCall.onLog .empty calls).1[k]? = some none) ∧
    (runCalls LogCall.onLog .empty calls).1 = (runCalls LogCall.onQueue [] calls).1 := by
  refine ⟨?_, fun k hk => ?_, fun k c hk hc => ?_, (runCalls_onQueue calls).1⟩
  · rw [buffer_runCalls, List.length_take]
    exact Nat.min_le_left _ _
  · obtain ⟨hanswer, hstate⟩ := getElem?_runCalls LogCall.onLog .empty hk
    have hbuffer := buffer_runCalls (calls.take k)
    refine ⟨_, ?_, handedOver_flatMap_lines _, ?_⟩
    · rw [hanswer, LogCall.onLog, Log.coalesce, hbuffer, List.length_take, List.length_reverse]
      rfl
    · rw [hstate]
      rfl
  · rw [(getElem?_runCalls LogCall.onLog .empty hk).1]
    cases c with
    | coalesce => exact absurd rfl hc
    | report r => rfl
    | clear => rfl

end Argand
