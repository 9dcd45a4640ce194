import Libam.Log.Delivery

/-! The lines that a sequence of calls of `amlog_sink_message` stands for, whichever way they go. -/

namespace Libam.Log

open Libam.Interleaving

section Lines

/-- All but the time. The message is a string, which ends at its first zero. -/
def AmlogLine.content (ent : AmlogLine) : AmlogLine :=
  { ent with timestamp := 0, message := ent.message.takeWhile (· ≠ 0) }

def AmlogLine.written (ent : AmlogLine) : Option (List UInt8) → Option AmlogLine
  | none => none
  | some text =>
      if text.length < 2 ^ 31 then
        some { ent with
          timestamp := 0, message := (text.take (messageSize - 2)).takeWhile (· ≠ 0),
            messageLength := text.length }
      else none

def lineOf (useSourceLocation : Bool) (request : Request) : Option AmlogLine :=
  AmlogLine.written
    ⟨0, request.level, request.mask, if useSourceLocation then request.file else some "N/A",
      if useSourceLocation then request.line else 0, [], 0⟩ request.text

def expected {Ptr : Type} (useSourceLocation : Bool) (logged : List Request)
    (sink : DirectSink Ptr) : List AmlogLine :=
  (logged.filterMap (lineOf useSourceLocation)).filter sink.admits

theorem takeWhile_append_stop {α : Type} (p : α → Bool) (before after : List α) (x : α)
    (stops : p x = false) : (before ++ x :: after).takeWhile p = before.takeWhile p := by
  induction before with
  | nil => simp [stops]
  | cons first rest ih => simp only [List.cons_append, List.takeWhile_cons, ih]

/-- The string in the array is the beginning of the text, whatever the array held before. -/
theorem format_message (ent : AmlogLine) (now : UInt64) (text : List UInt8) :
    (formatEnt ent now (some text)).message.takeWhile (· ≠ 0) =
      (text.take (messageSize - 2)).takeWhile (· ≠ 0) := by
  have short : (text.take (messageSize - 2)).length < messageSize - 1 := by
    rw [List.length_take]
    exact lt_of_le_of_lt (min_le_left _ _) (by decide)
  obtain ⟨k, last⟩ : ∃ k, messageSize - 1 - (text.take (messageSize - 2)).length = k + 1 :=
    ⟨_, (Nat.succ_pred (Nat.sub_ne_zero_of_lt short)).symm⟩
  show ((text.take (messageSize - 2) ++ 0 :: _).set (messageSize - 1) 0).takeWhile (· ≠ 0) = _
  rw [List.set_append_right _ _ short.le, last, List.set_cons_succ]
  exact takeWhile_append_stop _ _ _ _ rfl

theorem format_written (ent : AmlogLine) (now : UInt64) (text : Option (List UInt8)) :
    ent.written text = if (formatEnt ent now text).messageLength < 0 then none
      else some (formatEnt ent now text).content := by
  cases text with
  | none => rfl
  | some text =>
      have length : (formatEnt ent now (some text)).messageLength =
          if text.length < 2 ^ 31 then (text.length : ℤ) else -1 := rfl
      by_cases fits : text.length < 2 ^ 31
      · rw [if_pos fits] at length
        rw [AmlogLine.written, if_pos fits, if_neg (by omega)]
        have message := format_message ent now text
        simp only [AmlogLine.content, message, length]
        rfl
      · rw [if_neg fits] at length
        rw [AmlogLine.written, if_neg fits, if_pos (by omega)]

def Call.line (call : Call) : Option AmlogLine :=
  if call.formatted then some call.ent.content else call.ent.written call.text

theorem enter_line {Ptr : Type} (g : Logger Ptr) (request : Request) (stack : AmlogLine) :
    (g.enter request stack).line = lineOf g.useSourceLocation request := by
  obtain ⟨file, line, level, mask, text⟩ := request
  cases text <;> rfl

variable {call : Call} {now : UInt64}

theorem line_formatted (fits : ¬ (formatEnt call.ent now call.text).messageLength < 0)
    (fresh : ¬ call.formatted = true) :
    (⟨formatEnt call.ent now call.text, true, call.text⟩ : Call).line = call.line := by
  rw [Call.line, Call.line, if_pos rfl, if_neg fresh, format_written _ now, if_neg fits]

theorem line_failed (failed : (formatEnt call.ent now call.text).messageLength < 0)
    (fresh : ¬ call.formatted = true) : call.line = none := by
  rw [Call.line, if_neg fresh, format_written _ now, if_pos failed]

theorem line_admits {Ptr : Type} (sink : DirectSink Ptr) :
    call.line.toList.filter sink.admits =
      if skips sink.level sink.mask call.ent = true then [] else call.line.toList := by
  have same (ent : AmlogLine) (isLine : call.line = some ent) :
      sink.admits ent = !skips sink.level sink.mask call.ent := by
    rw [Call.line] at isLine
    split at isLine
    · cases isLine
      rfl
    · unfold AmlogLine.written at isLine
      split at isLine
      · cases isLine
      · split at isLine <;> cases isLine
        rfl
  cases isLine : call.line with
  | none => simp
  | some ent =>
      rw [Option.toList_some, List.filter_singleton, same ent isLine]
      split <;> simp_all

end Lines

section Calls

variable {Ptr : Type}

def Loc.line : Loc Ptr → Option AmlogLine
  | .lockQueued call => call.line
  | .queued call _ => call.line
  | .dequeue call _ _ => call.line
  | .copy call _ _ => call.line
  | .enqueue call _ _ => call.line
  | .readThread call => call.line
  | .lockDirect call => call.line
  | .direct call _ => call.line
  | .callback call _ _ => call.line
  | _ => none

/-- A line is formatted before it is copied, and a direct sink is called with the lines for it. -/
def Loc.ready : Loc Ptr → Bool
  | .dequeue call _ _ => call.formatted
  | .copy call _ _ => call.formatted
  | .enqueue call _ _ => call.formatted
  | .callback call sink _ => call.formatted && sink.admits call.ent
  | _ => true

variable [DecidableEq Ptr] {g g' : Logger Ptr} {l l' : Loc Ptr} {a : Act Ptr}

theorem move_ready (moved : Move g l a g' l') (ready : l.ready = true) : l'.ready = true := by
  cases moved with
  | queuedReady call sink rest now admitted formatted => exact formatted
  | directReady call sink rest now admitted formatted =>
      simp [Loc.ready, DirectSink.admits, formatted, admitted]
  | directFormat call sink rest now admitted fresh fits =>
      show (true && !skips sink.level sink.mask call.ent) = true
      simp [admitted]
  | noLine _ _ _ _ _ _ _ _ _ missed | noForeign _ _ _ _ _ _ _ _ missed =>
      obtain ⟨-, -, rfl | rfl⟩ := noLine_cases missed
      · exact ready
      · rfl
  | _ => first | rfl | exact ready

theorem move_settings (moved : Move g l a g' l') :
    g'.useSourceLocation = g.useSourceLocation ∧ g'.directSinks = g.directSinks := by
  cases moved with
  | noLine _ _ _ _ _ _ _ _ _ missed | noForeign _ _ _ _ _ _ _ _ missed =>
      obtain ⟨aborted, rfl, -⟩ := noLine_cases missed
      exact ⟨rfl, rfl⟩
  | _ => exact ⟨rfl, rfl⟩

theorem run_settings {Tid : Type} [DecidableEq Tid] {start c : Config Tid (Logger Ptr) (Loc Ptr)}
    {Ok : Config Tid (Logger Ptr) (Loc Ptr) → Tid × Act Ptr → Config Tid (Logger Ptr)
      (Loc Ptr) → Prop}
    {acts : List (Tid × Act Ptr)} (run : Run step Ok start acts c) :
    c.shared.useSourceLocation = start.shared.useSourceLocation ∧
      c.shared.directSinks = start.shared.directSinks := by
  induction run with
  | nil => exact ⟨rfl, rfl⟩
  | @snoc _ _ _ act _ fired _ ih =>
      obtain ⟨g, l, moved, rfl⟩ := step_cases fired
      exact ⟨(move_settings moved).1.trans ih.1, (move_settings moved).2.trans ih.2⟩

end Calls

end Libam.Log
