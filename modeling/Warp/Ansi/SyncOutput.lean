import Warp.Ansi.CoreRun

namespace Warp.Ansi

open List Option

variable {P δ : Type} (setting : Setting P δ)

/-- What a processor is given: bytes of the pty, or the moment at which an update has taken too long. -/
inductive Input where
  | bytes (chunk : Bytes)
  | timeout

def Input.content : Input → Bytes
  | .bytes chunk => chunk
  | .timeout => []

/-- The marker is read as a control sequence of its own, which leaves the parser as it was. -/
def Vte.Alone (vte : Vte P) (p : P) (marker : Bytes) (action : Char) : Prop :=
  vte.events p marker = [.csiDispatch [⟨2026, []⟩] (ascii "?") false action] ∧ vte.Same (vte.after p marker) p

namespace Processor

def input (reached : Processor P × Outside δ) : Input → Option (Processor P × Outside δ)
  | .bytes chunk => parseBytes setting reached chunk
  | .timeout => finishSyncOutput setting reached

def run (reached : Processor P × Outside δ) (inputs : List Input) : Option (Processor P × Outside δ) :=
  inputs.foldlM (input setting) reached

def parseByte (reached : Processor P × Outside δ) (byte : UInt8) : Option (Processor P × Outside δ) :=
  parseByteWith setting (parseBytesInternal setting (reached.1.depth [byte])) reached byte

/-- While an update is buffered, the byte either ends a marker that stands alone or sets no update of its own. -/
def Tame (self : Processor P) (byte : UInt8) : Prop :=
  let buffer := self.buffer ++ [byte]
  let cut := setting.vte.after self.core.parser (buffer.take (buffer.length - 8))
  self.core.syncOutput →
    if setMarker <:+ buffer then setting.vte.Alone cut setMarker 'h'
    else if unsetMarker <:+ buffer then setting.vte.Alone cut unsetMarker 'l'
    else ∀ event ∈ (setting.vte.advance (setting.vte.after self.core.parser self.buffer) byte).2, event.setsSyncOutput = false

def TameAlong (reached : Processor P × Outside δ) : Bytes → Prop
  | [] => True
  | byte :: bytes => reached.1.Tame setting byte ∧ ∀ next, parseByte setting reached byte = some next → TameAlong next bytes

/-- A run each of whose bytes is tame where it is parsed. -/
def Follows (reached : Processor P × Outside δ) : List Input → Prop
  | [] => True
  | input :: inputs => TameAlong setting reached input.content ∧
      ∀ next, Processor.input setting reached input = some next → Follows next inputs

def held (self : Processor P) : Bytes := if self.core.syncOutput then self.buffer else []

def ofCore (core : Core P) : Processor P := ⟨core, [], TmuxControlMode.new setting⟩

variable {setting} {reached next : Processor P × Outside δ} {core : Core P} {outside : Outside δ} {byte : UInt8}
  {bytes done more : Bytes} {fuel : ℕ} {parse : Parse P δ} {isFrame : Bool}

theorem parseUntil_uneventful (idle : core.syncOutput = false) (plain : core.tmuxControlMode = false)
    (uneventful : Uneventful setting.env (setting.vte.events core.parser bytes)) :
    parseUntil (parseByteWith setting parse) (ofCore setting core, outside) bytes =
      (Core.feed setting (core, outside) bytes).map fun moved => ((ofCore setting moved.1, moved.2), []) := by
  induction bytes generalizing core outside with
  | nil => rfl
  | cons byte bytes ih =>
    have step : parseByteWith setting parse (ofCore setting core, outside) byte =
        (Core.advance setting (core, outside) byte).map fun moved => (ofCore setting moved.1, moved.2) := by
      unfold parseByteWith
      rw [if_neg (by rw [show (ofCore setting core).core.syncOutput = false from idle]; exact Bool.false_ne_true)]
      rfl
    unfold parseUntil
    rw [step]
    show _ = Option.map _ ((Core.advance setting (core, outside) byte).bind (Core.feed setting · bytes))
    cases advances : Core.advance setting (core, outside) byte with
    | none => rfl
    | some moved =>
      have first : Uneventful setting.env (setting.vte.events core.parser [byte]) := fun event member =>
        uneventful event (mem_append_left _ (Vte.events_singleton ▸ member))
      obtain ⟨runs, reads⟩ := Core.feed_some (Core.feed_singleton.trans advances)
      obtain ⟨sync, control, -⟩ := first.run runs
      have sync : moved.1.syncOutput = false := sync.trans idle
      have control : moved.1.tmuxControlMode = false := control.trans plain
      have later : Uneventful setting.env (setting.vte.events moved.1.parser bytes) := by
        rw [reads]
        exact fun event member => uneventful event (mem_append_right _ member)
      rw [map_some, bind_some, ← ih sync control later]
      refine if_neg ?_
      show ¬ (moved.1.tmuxControlMode ∨ core.syncOutput ≠ moved.1.syncOutput)
      rw [sync, control, idle]
      decide

theorem parseBytesInternal_nil : parseBytesInternal setting (fuel + 1) reached isFrame [] = some reached := by
  unfold parseBytesInternal
  exact if_pos rfl

theorem parseBytesInternal_uneventful (idle : core.syncOutput = false) (plain : core.tmuxControlMode = false)
    (uneventful : Uneventful setting.env (setting.vte.events core.parser bytes)) (some' : bytes ≠ []) :
    parseBytesInternal setting (fuel + 2) (ofCore setting core, outside) isFrame bytes =
      (Core.feed setting (core, outside) bytes).map fun moved =>
        (ofCore setting moved.1, moved.2.call (.onFinishByteProcessing bytes isFrame)) := by
  unfold parseBytesInternal
  rw [if_neg some', if_neg (by rw [show (ofCore setting core).core.tmuxControlMode = false from plain]; exact Bool.false_ne_true)]
  unfold parsePlain
  rw [parseUntil_uneventful idle plain uneventful]
  cases feeds : Core.feed setting (core, outside) bytes with
  | none => rfl
  | some moved =>
    obtain ⟨-, control, -⟩ := uneventful.run (Core.feed_some feeds).1
    have control : moved.1.tmuxControlMode = false := control.trans plain
    show parseBytesInternal setting (fuel + 1) (ofCore setting moved.1, if moved.1.tmuxControlMode then _ else _) isFrame [] = _
    rw [parseBytesInternal_nil, control, if_neg Bool.false_ne_true]
    simp only [map_some, length_nil, Nat.sub_zero, take_length]

def flushed (buffer : Bytes) (outside : Outside δ) : Outside δ :=
  (if buffer = [] then outside else outside.call (.onFinishByteProcessing buffer true)).call (.handler (.unsetMode .syncOutput))

theorem finishSyncOutputWith_uneventful {buffer : Bytes} (active : core.syncOutput) (plain : core.tmuxControlMode = false)
    (uneventful : Uneventful setting.env (setting.vte.events core.parser buffer)) :
    finishSyncOutputWith (parseBytesInternal setting (fuel + 2)) (⟨core, buffer, TmuxControlMode.new setting⟩, outside) =
      (Core.feed setting ({ core with syncOutput := false }, outside) buffer).map fun moved =>
        (ofCore setting moved.1, flushed buffer moved.2) := by
  unfold finishSyncOutputWith
  rw [if_pos active]
  show (parseBytesInternal setting (fuel + 2) (ofCore setting { core with syncOutput := false }, outside) true buffer).bind _ = _
  by_cases empty : buffer = []
  · subst empty
    rw [parseBytesInternal_nil]
    rfl
  · have parses : parseBytesInternal setting (fuel + 2) (ofCore setting { core with syncOutput := false }, outside) true buffer =
        (Core.feed setting ({ core with syncOutput := false }, outside) buffer).map fun moved =>
          (ofCore setting moved.1, moved.2.call (.onFinishByteProcessing buffer true)) :=
      parseBytesInternal_uneventful rfl plain uneventful empty
    rw [parses, bind_map]
    simp only [flushed, if_neg empty]
    exact (map_eq_bind ..).symm

section Invariant

def Alike (x y : Core P × Outside δ) : Prop :=
  Agrees (fun _ _ => True) Call.isEffect (x.1.performer x.2) (y.1.performer y.2)

theorem alike_append {x y : Core P × Outside δ} {bytes' : Bytes}
    (alike : Option.Rel Alike (Core.feed setting x bytes) (Core.feed setting y bytes'))
    (same : setting.vte.Same (setting.vte.after x.1.parser bytes) (setting.vte.after y.1.parser bytes')) :
    Option.Rel Alike (Core.feed setting x (bytes ++ more)) (Core.feed setting y (bytes' ++ more)) := by
  rw [Core.feed_append, Core.feed_append]
  cases feeds : Core.feed setting x bytes with
  | none =>
    rw [feeds] at alike
    generalize Core.feed setting y bytes' = other at alike ⊢
    cases alike
    exact .none
  | some moved =>
    cases feeds' : Core.feed setting y bytes' with
    | none =>
      rw [feeds, feeds'] at alike
      cases alike
    | some moved' =>
      rw [feeds, feeds'] at alike
      cases alike with
      | some alike =>
        have events : setting.vte.events moved.1.parser more = setting.vte.events moved'.1.parser more := by
          rw [(Core.feed_some feeds).2, (Core.feed_some feeds').2, same]
        have both := Core.feed_agrees alike (fun _ => Call.isEffect_of_isOfHook) trivial events
        rw [bind_some, bind_some]
        generalize Core.feed setting moved more = x' at both ⊢
        generalize Core.feed setting moved' more = y' at both ⊢
        cases both with
        | none => exact .none
        | some both => exact .some both.1

theorem run_marker {env : Env δ} {handler : Handler δ (List (Call δ))} {p : Performer (List (Call δ))} :
    p.run env handler [.csiDispatch [⟨2026, []⟩] (ascii "?") false 'h'] = some (p.activate handler) ∧
      p.run env handler [.csiDispatch [⟨2026, []⟩] (ascii "?") false 'l'] = some p := by
  refine ⟨?_, rfl⟩
  rw [← Uniform.setMode_syncOutput]
  rfl

theorem alike_marker {x : Core P × Outside δ} {marker : Bytes} {action : Char} (isAction : action = 'h' ∨ action = 'l')
    (alone : setting.vte.Alone (setting.vte.after x.1.parser bytes) marker action) :
    Option.Rel Alike (Core.feed setting x bytes) (Core.feed setting x (bytes ++ marker)) := by
  rw [Core.feed_append]
  cases feeds : Core.feed setting x bytes with
  | none => exact .none
  | some moved =>
    rw [bind_some, Core.feed_eq, (Core.feed_some feeds).2, alone.1]
    have itself : Alike moved moved := ⟨rfl, rfl, rfl, rfl, trivial, rfl, rfl⟩
    rcases isAction with rfl | rfl
    · rw [run_marker.1]
      exact .some { itself with calls := (filter_append_other rfl).symm }
    · rw [run_marker.2]
      exact .some itself

theorem Alike.trans {x y z : Core P × Outside δ} (first : Alike x y) (second : Alike y z) : Alike x z :=
  ⟨first.precedingChar.trans second.precedingChar, first.dcsData.trans second.dcsData, first.apcData.trans second.apcData,
    first.tmuxControlMode.trans second.tmuxControlMode, trivial, first.images.trans second.images,
    first.calls.trans second.calls⟩

theorem rel_trans {α : Type} {R : α → α → Prop} (trans : ∀ {a b c}, R a b → R b c → R a c) {x y z : Option α}
    (first : Option.Rel R x y) (second : Option.Rel R y z) : Option.Rel R x z := by
  cases first with
  | none => exact second
  | some first =>
    cases second with
    | some second => exact .some (trans first second)

variable (setting) in
/-- The processor beside one that parses every byte at once: they would have made the same effects if the buffer were parsed. -/
structure Inv (reached : Processor P × Outside δ) (done : Bytes) : Prop where
  plain : reached.1.core.tmuxControlMode = false
  control : reached.1.control = TmuxControlMode.new setting
  uneventful : Uneventful setting.env (setting.vte.events reached.1.core.parser reached.1.held)
  parser : setting.vte.Same (setting.vte.after reached.1.core.parser reached.1.held) (setting.vte.after setting.vte.new done)
  agree : IsSet reached.2.calls ↔ reached.1.core.syncOutput
  alike : Option.Rel Alike (Core.feed setting (reached.1.core, reached.2) reached.1.held)
    (Core.feed setting (Core.new setting, .new) done)

variable (setting) in
/-- A processor that panics does so where the other one has. -/
def Reaches (done : Bytes) : Option (Processor P × Outside δ) → Prop
  | some reached => Inv setting reached done
  | none => Core.feed setting (Core.new setting, .new) done = none

theorem inv_new : Inv setting (new setting, .new) [] where
  plain := rfl
  control := rfl
  uneventful := fun _ => (nomatch ·)
  parser := .refl _
  agree := iff_of_false (nomatch ·) Bool.false_ne_true
  alike := .some ⟨rfl, rfl, rfl, rfl, trivial, rfl, rfl⟩

variable {buffer : Bytes} {control : TmuxControlMode P}

theorem reaches_finish (active : core.syncOutput) (plain : core.tmuxControlMode = false)
    (uneventful : Uneventful setting.env (setting.vte.events core.parser buffer))
    (parser : setting.vte.Same (setting.vte.after core.parser buffer) (setting.vte.after setting.vte.new done))
    (alike : Option.Rel Alike (Core.feed setting (core, outside) buffer) (Core.feed setting (Core.new setting, .new) done)) :
    Reaches setting done (finishSyncOutputWith (parseBytesInternal setting (fuel + 2))
      (⟨core, buffer, TmuxControlMode.new setting⟩, outside)) := by
  rw [finishSyncOutputWith_uneventful active plain uneventful]
  have idle : Option.Rel Alike (Core.feed setting ({ core with syncOutput := false }, outside) buffer)
      (Core.feed setting (core, outside) buffer) := by
    have start : Option.Rel Alike (Core.feed setting ({ core with syncOutput := false }, outside) [])
        (Core.feed setting (core, outside) []) := .some ⟨rfl, rfl, rfl, rfl, trivial, rfl, rfl⟩
    exact alike_append start (.refl _)
  have alike := rel_trans (fun first second => first.trans second) idle alike
  cases feeds : Core.feed setting ({ core with syncOutput := false }, outside) buffer with
  | none =>
    rw [feeds] at alike
    generalize isDone : Core.feed setting (Core.new setting, .new) done = other at alike
    cases alike
    exact isDone
  | some moved =>
    obtain ⟨runs, reads⟩ := Core.feed_some feeds
    obtain ⟨sync, control, -⟩ := uneventful.run runs
    have sync : moved.1.syncOutput = false := sync
    have nothing : (ofCore setting moved.1).held = [] := by
      unfold held
      rw [show (ofCore setting moved.1).core.syncOutput = false from sync, if_neg Bool.false_ne_true]
    rw [feeds] at alike
    refine ⟨control.trans plain, rfl, ?_, ?_, ?_, ?_⟩
    · rw [nothing]
      exact fun _ => (nomatch ·)
    · rw [nothing]
      show setting.vte.Same moved.1.parser _
      rw [reads]
      exact parser
    · exact iff_of_false not_isSet_unset (by rw [show (ofCore setting moved.1).core.syncOutput = false from sync]; exact Bool.false_ne_true)
    · rw [nothing]
      show Option.Rel Alike (some (moved.1, flushed buffer moved.2)) _
      generalize Core.feed setting (Core.new setting, .new) done = other at alike ⊢
      cases alike with
      | some alike =>
        refine .some { alike with images := ?_, calls := ?_ }
        · unfold flushed
          rw [← show moved.2.images = _ from alike.images]
          split_ifs <;> rfl
        · refine Eq.trans ?_ alike.calls
          unfold flushed
          split_ifs
          · exact filter_append_other rfl
          · exact (filter_append_other rfl).trans (filter_append_other rfl)

theorem uneventful_append {p : P} (first : Uneventful setting.env (setting.vte.events p bytes))
    (second : Uneventful setting.env (setting.vte.events (setting.vte.after p bytes) more)) :
    Uneventful setting.env (setting.vte.events p (bytes ++ more)) := by
  rw [Vte.events_append]
  exact fun event member => (List.mem_append.mp member).elim (first event) (second event)

theorem uneventful_front {p : P} (whole : Uneventful setting.env (setting.vte.events p (bytes ++ more))) :
    Uneventful setting.env (setting.vte.events p bytes) := by
  rw [Vte.events_append] at whole
  exact fun event member => whole event (mem_append_left _ member)

theorem take_append_marker {marker : Bytes} (ends : marker <:+ buffer) (eight : marker.length = 8) :
    buffer.take (buffer.length - 8) ++ marker = buffer := by
  obtain ⟨kept, rfl⟩ := ends
  rw [length_append, eight, Nat.add_sub_cancel, take_left' rfl]

theorem take_cut {marker : Bytes} (ends : marker <:+ buffer ++ [byte]) (eight : marker.length = 8) :
    (buffer ++ [byte]).take ((buffer ++ [byte]).length - 8) <+: buffer := by
  have long := ends.length_le
  rw [eight, length_append, length_singleton] at long
  rw [length_append, length_singleton, take_append_of_le_length (by omega)]
  exact take_prefix _ _

variable (setting) in
def OutsideControlMode (bytes : Bytes) : Prop :=
  ∀ event ∈ setting.vte.events setting.vte.new bytes, event.startsControlMode setting.env = false

theorem OutsideControlMode.last {p : P} (plain : OutsideControlMode setting (done ++ [byte]))
    (same : setting.vte.Same p (setting.vte.after setting.vte.new done)) :
    ∀ event ∈ setting.vte.events p [byte], event.startsControlMode setting.env = false := by
  intro event member
  rw [same] at member
  unfold OutsideControlMode at plain
  rw [Vte.events_append] at plain
  exact plain event (mem_append_right _ member)

theorem held_ofCore : (ofCore setting core).held = [] := by
  unfold held
  split_ifs <;> rfl

theorem held_active (active : core.syncOutput) :
    (⟨core, buffer, control⟩ : Processor P).held = buffer := if_pos active

theorem parseByteWith_idle (idle : ¬ core.syncOutput) :
    parseByteWith setting parse (⟨core, buffer, control⟩, outside) byte =
      (Core.advance setting (core, outside) byte).map fun moved => (ofCore setting moved.1, moved.2) := if_neg idle

theorem reaches_idle (inv : Inv setting reached done) (idle : ¬ reached.1.core.syncOutput)
    (plain : OutsideControlMode setting (done ++ [byte])) :
    Reaches setting (done ++ [byte]) (parseByteWith setting parse reached byte) := by
  obtain ⟨⟨core, buffer, control⟩, outside⟩ := reached
  have nothing : (⟨core, buffer, control⟩ : Processor P).held = [] := if_neg idle
  have parser := inv.parser
  have alike := inv.alike
  rw [nothing] at parser alike
  have step : Option.Rel Alike (Core.feed setting (core, outside) ([] ++ [byte]))
      (Core.feed setting (Core.new setting, .new) (done ++ [byte])) := alike_append alike parser
  rw [nil_append, Core.feed_singleton] at step
  rw [parseByteWith_idle idle]
  cases advances : Core.advance setting (core, outside) byte with
  | none =>
    rw [advances] at step
    generalize isDone : Core.feed setting (Core.new setting, .new) (done ++ [byte]) = other at step
    cases step
    exact isDone
  | some moved =>
    obtain ⟨runs, reads⟩ := Core.feed_some (Core.feed_singleton.trans advances)
    rw [advances] at step
    refine ⟨(run_tmuxControlMode (plain.last parser) runs).trans inv.plain, rfl, ?_, ?_, run_isSet runs inv.agree, ?_⟩
    · rw [held_ofCore]
      exact fun _ => (nomatch ·)
    · rw [held_ofCore]
      show setting.vte.Same moved.1.parser _
      rw [reads, Vte.after_append]
      exact parser.after [byte]
    · rw [held_ofCore]
      exact step

theorem marker_cut {marker : Bytes} {action : Char} (isAction : action = 'h' ∨ action = 'l')
    (eight : marker.length = 8) (ends : marker <:+ buffer ++ [byte])
    (alone : setting.vte.Alone (setting.vte.after core.parser ((buffer ++ [byte]).take ((buffer ++ [byte]).length - 8))) marker action)
    (uneventful : Uneventful setting.env (setting.vte.events core.parser buffer))
    (parser : setting.vte.Same (setting.vte.after core.parser (buffer ++ [byte])) (setting.vte.after setting.vte.new done))
    (alike : Option.Rel Alike (Core.feed setting (core, outside) (buffer ++ [byte])) (Core.feed setting (Core.new setting, .new) done)) :
    let kept := (buffer ++ [byte]).take ((buffer ++ [byte]).length - 8)
    Uneventful setting.env (setting.vte.events core.parser kept) ∧
      setting.vte.Same (setting.vte.after core.parser kept) (setting.vte.after setting.vte.new done) ∧
      Option.Rel Alike (Core.feed setting (core, outside) kept) (Core.feed setting (Core.new setting, .new) done) := by
  intro kept
  have whole : kept ++ marker = buffer ++ [byte] := take_append_marker ends eight
  refine ⟨?_, ?_, ?_⟩
  · obtain ⟨rest, isPrefix⟩ : kept <+: buffer := take_cut ends eight
    rw [← isPrefix] at uneventful
    exact uneventful_front uneventful
  · refine alone.2.symm.trans ?_
    rw [← Vte.after_append, whole]
    exact parser
  · have first := alike_marker (x := (core, outside)) isAction alone
    rw [whole] at first
    exact rel_trans (fun first second => first.trans second) first alike

theorem reaches_active (inv : Inv setting reached done) (active : reached.1.core.syncOutput) (tame : reached.1.Tame setting byte)
    (plain : OutsideControlMode setting (done ++ [byte])) :
    Reaches setting (done ++ [byte]) (parseByteWith setting (parseBytesInternal setting (fuel + 2)) reached byte) := by
  obtain ⟨⟨core, buffer, control⟩, outside⟩ := reached
  obtain rfl : control = _ := inv.control
  have uneventful := inv.uneventful
  have parser := inv.parser
  have alike := inv.alike
  rw [held_active active] at uneventful parser alike
  have alike' : Option.Rel Alike (Core.feed setting (core, outside) (buffer ++ [byte]))
      (Core.feed setting (Core.new setting, .new) (done ++ [byte])) := alike_append alike parser
  have parser' := parser.after [byte]
  rw [← Vte.after_append, ← Vte.after_append] at parser'
  have tame := tame active
  unfold parseByteWith
  rw [if_pos active]
  by_cases set : setMarker <:+ buffer ++ [byte]
  · rw [if_pos set] at tame
    obtain ⟨uneventful, parser, alike⟩ := marker_cut (.inl rfl) rfl set tame uneventful parser' alike'
    dsimp only
    rw [if_pos set]
    refine ⟨inv.plain, rfl, ?_, ?_, inv.agree, ?_⟩ <;> rw [held_active active]
    · exact uneventful
    · exact parser
    · exact alike
  by_cases unset : unsetMarker <:+ buffer ++ [byte]
  · rw [if_neg set, if_pos unset] at tame
    obtain ⟨uneventful, parser, alike⟩ := marker_cut (.inr rfl) rfl unset tame uneventful parser' alike'
    dsimp only
    rw [if_neg set, if_pos unset]
    exact reaches_finish active inv.plain uneventful parser alike
  rw [if_neg set, if_neg unset] at tame
  have whole : Uneventful setting.env (setting.vte.events core.parser (buffer ++ [byte])) := by
    refine uneventful_append uneventful fun event member => ⟨?_, plain.last parser event member⟩
    exact tame event (Vte.events_singleton ▸ member)
  dsimp only
  rw [if_neg set, if_neg unset]
  by_cases full : syncOutputMaxBufferSize ≤ (buffer ++ [byte]).length
  · rw [if_pos full]
    exact reaches_finish active inv.plain whole parser' alike'
  · rw [if_neg full]
    refine ⟨inv.plain, rfl, ?_, ?_, inv.agree, ?_⟩ <;> rw [held_active active]
    · exact whole
    · exact parser'
    · exact alike'

end Invariant

section Batches

def SameBut {α : Type} (x y : α × Outside δ) : Prop := x.1 = y.1 ∧ x.2.Kept (fun call => !call.isOnFinish) y.2

theorem feed_sameBut {o o' : Outside δ} (alike : o.Kept (fun call => !call.isOnFinish) o') :
    Option.Rel SameBut (Core.feed setting (core, o) bytes) (Core.feed setting (core, o') bytes) :=
  Core.feed_kept (fun _ => Call.isOnFinish_of_isOfHook) alike

theorem finish_sameBut {buffer : Bytes} {o o' : Outside δ} {fuel' : ℕ} (alike : o.Kept (fun call => !call.isOnFinish) o') (active : core.syncOutput)
    (plain : core.tmuxControlMode = false) (uneventful : Uneventful setting.env (setting.vte.events core.parser buffer)) :
    Option.Rel SameBut
      (finishSyncOutputWith (parseBytesInternal setting (fuel + 2)) (⟨core, buffer, TmuxControlMode.new setting⟩, o))
      (finishSyncOutputWith (parseBytesInternal setting (fuel' + 2)) (⟨core, buffer, TmuxControlMode.new setting⟩, o')) := by
  rw [finishSyncOutputWith_uneventful active plain uneventful, finishSyncOutputWith_uneventful active plain uneventful]
  have both : Option.Rel SameBut (Core.feed setting ({ core with syncOutput := false }, o) buffer)
      (Core.feed setting ({ core with syncOutput := false }, o') buffer) := feed_sameBut alike
  generalize Core.feed setting ({ core with syncOutput := false }, o) buffer = x at both ⊢
  generalize Core.feed setting ({ core with syncOutput := false }, o') buffer = y at both ⊢
  cases both with
  | none => exact .none
  | some both =>
    refine .some ⟨congrArg (ofCore setting) both.1, ?_⟩
    unfold flushed
    split_ifs
    · exact both.2.call _
    · exact (both.2.call _).call _

variable {self : Processor P}

theorem parseByteWith_sameBut {o o' : Outside δ} {fuel' : ℕ} (inv : Inv setting (self, o) done)
    (tame : self.Tame setting byte) (plain : OutsideControlMode setting (done ++ [byte]))
    (alike : o.Kept (fun call => !call.isOnFinish) o') :
    Option.Rel SameBut (parseByteWith setting (parseBytesInternal setting (fuel + 2)) (self, o) byte)
      (parseByteWith setting (parseBytesInternal setting (fuel' + 2)) (self, o') byte) := by
  obtain ⟨core, buffer, control⟩ := self
  obtain rfl : control = _ := inv.control
  by_cases active : core.syncOutput
  · have uneventful := inv.uneventful
    have parser := inv.parser
    have tame := tame active
    rw [held_active active] at uneventful parser
    unfold parseByteWith
    rw [if_pos active, if_pos active]
    dsimp only
    by_cases set : setMarker <:+ buffer ++ [byte]
    · rw [if_pos set, if_pos set]
      exact .some ⟨rfl, alike⟩
    rw [if_neg set, if_neg set]
    by_cases unset : unsetMarker <:+ buffer ++ [byte]
    · rw [if_pos unset, if_pos unset]
      obtain ⟨rest, isPrefix⟩ := take_cut unset rfl
      rw [← isPrefix] at uneventful
      exact finish_sameBut alike active inv.plain (uneventful_front uneventful)
    rw [if_neg unset, if_neg unset]
    rw [if_neg set, if_neg unset] at tame
    by_cases full : syncOutputMaxBufferSize ≤ (buffer ++ [byte]).length
    · rw [if_pos full, if_pos full]
      refine finish_sameBut alike active inv.plain (uneventful_append uneventful fun event member => ⟨?_, plain.last parser event member⟩)
      exact tame event (Vte.events_singleton ▸ member)
    · rw [if_neg full, if_neg full]
      exact .some ⟨rfl, alike⟩
  · rw [parseByteWith_idle active, parseByteWith_idle active, ← Core.feed_singleton, ← Core.feed_singleton]
    have both : Option.Rel SameBut (Core.feed setting (core, o) [byte]) (Core.feed setting (core, o') [byte]) := feed_sameBut alike
    generalize Core.feed setting (core, o) [byte] = x at both ⊢
    generalize Core.feed setting (core, o') [byte] = y at both ⊢
    cases both with
    | none => exact .none
    | some both => exact .some ⟨congrArg (ofCore setting) both.1, both.2⟩

theorem parseByteWith_reaches (inv : Inv setting reached done) (tame : reached.1.Tame setting byte)
    (plain : OutsideControlMode setting (done ++ [byte])) :
    Reaches setting (done ++ [byte]) (parseByteWith setting (parseBytesInternal setting (fuel + 2)) reached byte) := by
  by_cases active : reached.1.core.syncOutput
  · exact reaches_active inv active tame plain
  · exact reaches_idle inv active plain

theorem OutsideControlMode.front (plain : OutsideControlMode setting (done ++ more)) : OutsideControlMode setting done := by
  unfold OutsideControlMode at plain
  rw [Vte.events_append] at plain
  exact fun event member => plain event (mem_append_left _ member)

theorem feed_none_append (stops : Core.feed setting (Core.new setting, .new) done = none) :
    Core.feed setting (Core.new setting, .new) (done ++ more) = none := by
  rw [Core.feed_append, stops]
  rfl

theorem TameAlong.alike {o o' : Outside δ} (tame : TameAlong setting (self, o) bytes)
    (inv : Inv setting (self, o) done) (plain : OutsideControlMode setting (done ++ bytes))
    (alike : o.Kept (fun call => !call.isOnFinish) o') :
    TameAlong setting (self, o') bytes := by
  induction bytes generalizing self o o' done with
  | nil => trivial
  | cons byte bytes ih =>
    rw [append_cons] at plain
    refine ⟨tame.1, fun next isNext => ?_⟩
    have both : Option.Rel SameBut (parseByte setting (self, o) byte) (parseByte setting (self, o') byte) :=
      parseByteWith_sameBut inv tame.1 plain.front alike
    have reaches : Reaches setting (done ++ [byte]) (parseByte setting (self, o) byte) :=
      parseByteWith_reaches inv tame.1 plain.front
    have rest := tame.2
    rw [isNext] at both
    generalize parseByte setting (self, o) byte = x at both reaches rest
    cases both with
    | @some x _ both =>
      obtain ⟨self', o''⟩ := next
      obtain rfl : x.1 = self' := both.1
      exact ih (rest _ rfl) reaches plain both.2

theorem Inv.onFinish {batch : Bytes} (inv : Inv setting (self, outside) done) :
    Inv setting (self, outside.call (.onFinishByteProcessing batch isFrame)) done where
  plain := inv.plain
  control := inv.control
  uneventful := inv.uneventful
  parser := inv.parser
  agree := (isSet_append_other rfl).trans inv.agree
  alike := by
    have start : Option.Rel Alike
        (Core.feed setting (self.core, outside.call (.onFinishByteProcessing batch isFrame)) [])
        (Core.feed setting (self.core, outside) []) := .some ⟨rfl, rfl, rfl, rfl, trivial, rfl, filter_append_other rfl⟩
    exact rel_trans (fun first second => first.trans second) (alike_append start (.refl _)) inv.alike

theorem parseUntil_reaches (inv : Inv setting reached done) (tame : TameAlong setting reached bytes)
    (plain : OutsideControlMode setting (done ++ bytes)) :
    match parseUntil (parseByteWith setting (parseBytesInternal setting (fuel + 2))) reached bytes with
    | none => Core.feed setting (Core.new setting, .new) (done ++ bytes) = none
    | some (next, rest) => ∃ consumed, bytes = consumed ++ rest ∧ Inv setting next (done ++ consumed) ∧
        TameAlong setting next rest ∧ (consumed = [] → bytes = []) := by
  induction bytes generalizing reached done with
  | nil => exact ⟨[], rfl, by rw [append_nil]; exact inv, trivial, id⟩
  | cons byte bytes ih =>
    rw [append_cons] at plain ⊢
    have reaches : Reaches setting (done ++ [byte])
        (parseByteWith setting (parseBytesInternal setting (fuel + 2)) reached byte) :=
      parseByteWith_reaches inv tame.1 plain.front
    have both : Option.Rel SameBut (parseByte setting reached byte)
        (parseByteWith setting (parseBytesInternal setting (fuel + 2)) reached byte) :=
      parseByteWith_sameBut inv tame.1 plain.front ⟨rfl, rfl⟩
    have reaches' : Reaches setting (done ++ [byte]) (parseByte setting reached byte) :=
      parseByteWith_reaches inv tame.1 plain.front
    have later := tame.2
    unfold parseUntil
    generalize parseByteWith setting (parseBytesInternal setting (fuel + 2)) reached byte = y at reaches both ⊢
    generalize parseByte setting reached byte = x at both reaches' later
    cases both with
    | none => exact feed_none_append reaches
    | @some x y both =>
      have later : TameAlong setting y bytes := by
        obtain ⟨self, o⟩ := y
        obtain rfl : x.1 = self := both.1
        exact (later _ rfl).alike reaches' plain both.2
      show match (if _ then some (y, bytes) else _ : Option ((Processor P × Outside δ) × Bytes)) with
        | none => _
        | some (next, rest) => _
      split_ifs
      · exact ⟨[byte], rfl, reaches, later, fun nothing => (nomatch nothing)⟩
      · have rest := ih reaches later plain
        revert rest
        cases parseUntil (parseByteWith setting (parseBytesInternal setting (fuel + 2))) y bytes with
        | none => exact id
        | some ended =>
          intro ⟨consumed, isConsumed, inv, tame, _⟩
          refine ⟨byte :: consumed, congrArg _ isConsumed, ?_, tame, fun nothing => (nomatch nothing)⟩
          rw [append_cons]
          exact inv

theorem parseBytesInternal_reaches (enough : bytes.length + 2 ≤ fuel) (inv : Inv setting reached done)
    (tame : TameAlong setting reached bytes) (plain : OutsideControlMode setting (done ++ bytes)) :
    Reaches setting (done ++ bytes) (parseBytesInternal setting fuel reached isFrame bytes) := by
  induction fuel generalizing reached done bytes with
  | zero => omega
  | succ fuel ih =>
    by_cases empty : bytes = []
    · subst empty
      rw [parseBytesInternal_nil, append_nil]
      exact inv
    have long := length_pos_of_ne_nil empty
    obtain ⟨fuel', rfl⟩ : ∃ fuel', fuel = fuel' + 2 := ⟨fuel - 2, by omega⟩
    have segment := @parseUntil_reaches _ _ setting reached bytes done fuel' inv tame plain
    unfold parseBytesInternal
    rw [if_neg empty, if_neg (by rw [inv.plain]; exact Bool.false_ne_true)]
    unfold parsePlain
    revert segment
    cases parseUntil (parseByteWith setting (parseBytesInternal setting (fuel' + 2))) reached bytes with
    | none => exact id
    | some ended =>
      intro ⟨consumed, isConsumed, inv, tame, moves⟩
      obtain ⟨⟨self, o⟩, rest⟩ := ended
      have some' : consumed ≠ [] := fun nothing => empty (moves nothing)
      have shorter := length_pos_of_ne_nil some'
      show Reaches setting (done ++ bytes) (parseBytesInternal setting (fuel' + 2) (self, if self.core.tmuxControlMode then _ else _) isFrame rest)
      rw [show self.core.tmuxControlMode = false from inv.plain, if_neg Bool.false_ne_true]
      rw [isConsumed, ← append_assoc] at plain
      rw [isConsumed, length_append] at enough
      rw [isConsumed, ← append_assoc]
      exact ih (by omega) inv.onFinish (tame.alike inv plain ⟨rfl, (filter_append_other rfl).symm⟩) plain

end Batches

theorem finishSyncOutput_reaches (inv : Inv setting reached done) : Reaches setting done (finishSyncOutput setting reached) := by
  by_cases active : reached.1.core.syncOutput
  · obtain ⟨⟨core, buffer, control⟩, outside⟩ := reached
    obtain rfl : control = _ := inv.control
    have uneventful := inv.uneventful
    have parser := inv.parser
    have alike := inv.alike
    rw [held_active active] at uneventful parser alike
    exact reaches_finish active inv.plain uneventful parser alike
  · unfold finishSyncOutput finishSyncOutputWith
    rw [if_neg active]
    exact inv

theorem input_reaches {input : Input} (inv : Inv setting reached done) (tame : TameAlong setting reached input.content)
    (plain : OutsideControlMode setting (done ++ input.content)) :
    Reaches setting (done ++ input.content) (Processor.input setting reached input) := by
  cases input with
  | bytes chunk =>
    refine parseBytesInternal_reaches ?_ inv tame plain
    unfold Processor.depth
    show chunk.length + 2 ≤ _
    omega
  | timeout =>
    show Reaches setting (done ++ []) _
    rw [append_nil]
    exact finishSyncOutput_reaches inv

theorem run_reaches {inputs : List Input} (inv : Inv setting reached done) (follows : Follows setting reached inputs)
    (plain : OutsideControlMode setting (done ++ inputs.flatMap Input.content)) :
    Reaches setting (done ++ inputs.flatMap Input.content) (run setting reached inputs) := by
  induction inputs generalizing reached done with
  | nil =>
    rw [flatMap_nil, append_nil]
    exact inv
  | cons input inputs ih =>
    rw [flatMap_cons, ← append_assoc] at plain ⊢
    have first := input_reaches inv follows.1 plain.front
    have later := follows.2
    show Reaches setting _ ((Processor.input setting reached input).bind (run setting · inputs))
    revert first later
    cases Processor.input setting reached input with
    | none => exact fun stops _ => feed_none_append stops
    | some next => exact fun inv later => ih inv (later next rfl) plain

variable (setting) in
/-- Synchronized output only delays the effects of the bytes, and the handler knows whether an update is active, in every
run whose bytes are tame. The processor panics only where one that parses every byte at once does. -/
theorem run_delays (inputs : List Input) (plain : OutsideControlMode setting (inputs.flatMap Input.content))
    (follows : Follows setting (new setting, .new) inputs) :
    (∀ self outside, run setting (new setting, .new) inputs = some (self, outside) →
      (self.core.syncOutput = false → ∃ core direct,
        Core.feed setting (Core.new setting, .new) (inputs.flatMap Input.content) = some (core, direct) ∧
          outside.calls.filter Call.isEffect = direct.calls.filter Call.isEffect) ∧
      (IsSet outside.calls ↔ self.core.syncOutput)) ∧
    ((Core.feed setting (Core.new setting, .new) (inputs.flatMap Input.content)).isSome →
      (run setting (new setting, .new) inputs).isSome) := by
  have reaches := run_reaches inv_new follows plain
  rw [nil_append] at reaches
  revert reaches
  cases run setting (new setting, .new) inputs with
  | none =>
    intro stops
    rw [show Core.feed setting (Core.new setting, .new) (inputs.flatMap Input.content) = none from stops]
    exact ⟨fun _ _ => (nomatch ·), id⟩
  | some reached =>
    intro inv
    refine ⟨fun self outside isReached => ?_, fun _ => rfl⟩
    cases isReached
    refine ⟨fun idle => ?_, inv.agree⟩
    have alike := inv.alike
    rw [show self.held = [] from if_neg (by rw [idle]; exact Bool.false_ne_true)] at alike
    generalize Core.feed setting (Core.new setting, .new) (inputs.flatMap Input.content) = other at alike ⊢
    cases alike with
    | @some _ direct alike => exact ⟨_, _, rfl, alike.calls⟩

section Room

variable {rest : Bytes}

def Room (reached : Processor P × Outside δ) : Prop := reached.1.buffer.length < syncOutputMaxBufferSize

theorem room_nil {core : Core P} {control : TmuxControlMode P} {outside : Outside δ} : Room (⟨core, [], control⟩, outside) :=
  show 0 < syncOutputMaxBufferSize by decide

def KeepsRoom (parse : Parse P δ) : Prop := ∀ reached isFrame bytes next,
  Room reached → parse reached isFrame bytes = some next → Room next

theorem finishSyncOutputWith_room (keeps : KeepsRoom parse) (finished : finishSyncOutputWith parse reached = some next)
    (idle : ¬ reached.1.core.syncOutput → Room reached) : Room next := by
  unfold finishSyncOutputWith at finished
  split_ifs at finished with active
  · obtain ⟨flushed, parsed, ⟨⟩⟩ := bind_eq_some_iff.mp finished
    exact keeps _ _ _ flushed room_nil parsed
  · cases finished
    exact idle active

theorem parseByteWith_room (keeps : KeepsRoom parse) (room : Room reached)
    (parsed : parseByteWith setting parse reached byte = some next) : Room next := by
  unfold parseByteWith at parsed
  dsimp only at parsed
  have cut : ((reached.1.buffer ++ [byte]).take ((reached.1.buffer ++ [byte]).length - 8)).length <
      syncOutputMaxBufferSize := by
    unfold Room at room
    rw [length_take, length_append, length_singleton]
    omega
  split_ifs at parsed with active isSet isUnset full
  · cases parsed
    exact cut
  · exact finishSyncOutputWith_room keeps parsed fun idle => (idle active).elim
  · exact finishSyncOutputWith_room keeps parsed fun idle => (idle active).elim
  · cases parsed
    exact Nat.lt_of_not_le full
  · obtain ⟨moved, -, rfl⟩ := map_eq_some_iff.mp parsed
    exact room_nil

theorem parseUntil_room (keeps : KeepsRoom parse) (room : Room reached)
    (parsed : parseUntil (parseByteWith setting parse) reached bytes = some (next, rest)) : Room next := by
  induction bytes generalizing reached with
  | nil =>
    cases parsed
    exact room
  | cons byte bytes ih =>
    obtain ⟨moved, byByte, parsed⟩ := bind_eq_some_iff.mp parsed
    have room := parseByteWith_room keeps room byByte
    split_ifs at parsed
    · cases parsed
      exact room
    · exact ih room parsed

theorem parseControl_room (room : Room reached)
    (parsed : parseControl setting reached isFrame bytes = some (next, rest)) : Room next := by
  unfold parseControl at parsed
  obtain ⟨⟨⟨performer, parser⟩, left⟩, -, parsed⟩ := bind_eq_some_iff.mp parsed
  dsimp only at parsed
  split_ifs at parsed
  · cases parsed
    exact room_nil
  · cases parsed
    exact room
  · cases parsed
    exact room

theorem parseBytesInternal_room : KeepsRoom (parseBytesInternal setting fuel) := by
  induction fuel with
  | zero => exact fun _ _ _ _ _ parsed => (nomatch parsed)
  | succ fuel ih =>
    intro reached isFrame bytes next room parsed
    unfold parseBytesInternal at parsed
    split_ifs at parsed with empty control
    · cases parsed
      exact room
    · obtain ⟨⟨moved, rest⟩, byControl, parsed⟩ := bind_eq_some_iff.mp parsed
      exact ih moved isFrame rest next (parseControl_room room byControl) parsed
    · obtain ⟨⟨moved, rest⟩, plain, parsed⟩ := bind_eq_some_iff.mp parsed
      obtain ⟨⟨⟨self, outside⟩, left⟩, byByte, same⟩ := bind_eq_some_iff.mp plain
      cases same
      have room : Room (self, outside) := parseUntil_room ih room byByte
      dsimp only at parsed
      refine ih _ isFrame rest next ?_ parsed
      exact room

/-- However much is written in an update, and whether or not its end comes, what is buffered stays below the limit. -/
theorem run_buffer_lt {inputs : List Input} (runs : run setting (new setting, .new) inputs = some reached) :
    reached.1.buffer.length < syncOutputMaxBufferSize := by
  have step (input : Input) (before after : Processor P × Outside δ) (room : Room before)
      (moves : Processor.input setting before input = some after) : Room after := by
    cases input with
    | bytes chunk => exact parseBytesInternal_room before false chunk after room moves
    | timeout => exact finishSyncOutputWith_room parseBytesInternal_room moves fun _ => room
  exact @Checked.foldlM_keeps _ _ Room _ _ _ _ (fun input _ => step input) room_nil runs

end Room

section Checks

variable (setting) in
/-- Two states of the parser that are equal are not told apart, so that a concrete run can be checked. -/
def tameCheck [DecidableEq P] (self : Processor P) (byte : UInt8) : Bool :=
  let buffer := self.buffer ++ [byte]
  let cut := setting.vte.after self.core.parser (buffer.take (buffer.length - 8))
  let alone (marker : Bytes) (action : Char) : Bool :=
    setting.vte.events cut marker = [.csiDispatch [⟨2026, []⟩] (ascii "?") false action] ∧ setting.vte.after cut marker = cut
  !self.core.syncOutput ||
    if setMarker <:+ buffer then alone setMarker 'h'
    else if unsetMarker <:+ buffer then alone unsetMarker 'l'
    else (setting.vte.advance (setting.vte.after self.core.parser self.buffer) byte).2.all fun event => !event.setsSyncOutput

variable (setting) in
def tameChecks [DecidableEq P] (reached : Processor P × Outside δ) : Bytes → Bool
  | [] => true
  | byte :: bytes => reached.1.tameCheck setting byte &&
    match parseByte setting reached byte with
    | some next => tameChecks next bytes
    | none => true

theorem tame_of_check [DecidableEq P] {self : Processor P} (checks : self.tameCheck setting byte) : self.Tame setting byte := by
  intro active
  unfold tameCheck at checks
  simp only [active, Bool.not_true, Bool.false_or] at checks
  have alone {cut : P} {marker : Bytes} {action : Char}
      (checks : decide (setting.vte.events cut marker = [.csiDispatch [⟨2026, []⟩] (ascii "?") false action] ∧
        setting.vte.after cut marker = cut)) : setting.vte.Alone cut marker action := by
    have both := of_decide_eq_true checks
    exact ⟨both.1, both.2.symm ▸ .refl _⟩
  split_ifs at checks ⊢
  · exact alone checks
  · exact alone checks
  · intro event member
    have clear := List.all_eq_true.mp checks event member
    rw [Bool.not_eq_true'] at clear
    exact clear

theorem tameAlong_of_checks [DecidableEq P] (checks : tameChecks setting reached bytes) : TameAlong setting reached bytes := by
  induction bytes generalizing reached with
  | nil => trivial
  | cons byte bytes ih =>
    unfold tameChecks at checks
    rw [Bool.and_eq_true] at checks
    refine ⟨tame_of_check checks.1, fun next isNext => ih ?_⟩
    have later := checks.2
    rw [isNext] at later
    exact later

def csiVte : Vte (Option Bytes) where
  new := none
  advance
    | none, byte => if byte = 0x1b then (some [], []) else (none, [.print (Char.ofNat byte.toNat)])
    | some collected, byte =>
      if byte = 0x1b then (some [], [])
      else if collected = [] then if byte = 0x5b then (some [byte], []) else (none, [.escDispatch [] false byte])
      else if byte < 0x40 then (some (collected ++ [byte]), [])
      else
        let args := collected.tail
        let numbers := (args.filter (· < 0x3c)).foldr (fun byte numbers =>
          match numbers with
          | [] => [[byte]]
          | digits :: rest => if byte = 0x3b then [] :: digits :: rest else (byte :: digits) :: rest) [[]]
        (none, [.csiDispatch (numbers.map fun digits => ⟨.ofNat (Tmux.digitsValue 0 digits), []⟩)
          (args.filter (0x3c ≤ ·)) false (Char.ofNat byte.toNat)])

def csiSetting : Setting (Option Bytes) Unit where
  vte := csiVte
  env := ⟨false, false, true, ⟨fun _ => none, fun _ => none⟩, fun _ => 0, fun _ => none, fun _ => none⟩
  pendingHook := fun _ => none
  debugAssertions := true
  order := id
  order_perm := .refl

theorem run_delays_markers :
    (∀ self outside, run csiSetting (new csiSetting, .new) [.bytes (ascii "\x1b[?2026hA\x1b[?2026l"), .timeout] =
        some (self, outside) →
      (self.core.syncOutput = false → ∃ core direct,
        Core.feed csiSetting (Core.new csiSetting, .new) (ascii "\x1b[?2026hA\x1b[?2026l") = some (core, direct) ∧
          outside.calls.filter Call.isEffect = direct.calls.filter Call.isEffect) ∧
      (IsSet outside.calls ↔ self.core.syncOutput)) ∧
    ((Core.feed csiSetting (Core.new csiSetting, .new) (ascii "\x1b[?2026hA\x1b[?2026l")).isSome →
      (run csiSetting (new csiSetting, .new) [.bytes (ascii "\x1b[?2026hA\x1b[?2026l"), .timeout]).isSome) := by
  have follows : Follows csiSetting (new csiSetting, .new) [.bytes (ascii "\x1b[?2026hA\x1b[?2026l"), .timeout] :=
    ⟨tameAlong_of_checks (by decide +kernel), fun _ _ => ⟨trivial, fun _ _ => trivial⟩⟩
  exact run_delays csiSetting [.bytes (ascii "\x1b[?2026hA\x1b[?2026l"), .timeout] (by unfold OutsideControlMode; decide +kernel) follows

/-- A set of two modes inside an update starts an update of its own when the buffer is parsed, and the handler hears of its
end while bytes are buffered. -/
theorem not_run_delays : ¬ ∀ (P : Type) (setting : Setting P Unit) (inputs : List Input),
    OutsideControlMode setting (inputs.flatMap Input.content) →
    ∀ self outside, run setting (new setting, .new) inputs = some (self, outside) →
      (self.core.syncOutput = false → ∃ core direct,
        Core.feed setting (Core.new setting, .new) (inputs.flatMap Input.content) = some (core, direct) ∧
          outside.calls.filter Call.isEffect = direct.calls.filter Call.isEffect) ∧
      (IsSet outside.calls ↔ self.core.syncOutput) := by
  intro delays
  have holds := delays (Option Bytes) csiSetting [.bytes (ascii "\x1b[?2026h\x1b[?25;2026h\x1b[?2026l")]
    (by unfold OutsideControlMode; decide +kernel)
  have runs : (run csiSetting (new csiSetting, .new) [.bytes (ascii "\x1b[?2026h\x1b[?25;2026h\x1b[?2026l")]).any
      fun reached => reached.1.core.syncOutput && !isSetMode (reached.2.calls.filter Call.isSyncOutput).getLast? := by decide +kernel
  revert holds runs
  cases run csiSetting (new csiSetting, .new) [.bytes (ascii "\x1b[?2026h\x1b[?25;2026h\x1b[?2026l")] with
  | none => exact fun _ runs => Bool.false_ne_true runs
  | some reached =>
    intro holds runs
    rw [any_some, Bool.and_eq_true, Bool.not_eq_true', ← Bool.not_eq_true] at runs
    exact runs.2 (isSetMode_iff.mpr ((holds _ _ rfl).2.mpr runs.1))

theorem run_buffer_lt_open : ∃ reached, run csiSetting (new csiSetting, .new) [.bytes (ascii "\x1b[?2026hA")] = some reached ∧
    reached.1.buffer.length < syncOutputMaxBufferSize := by
  have runs : (run csiSetting (new csiSetting, .new) [.bytes (ascii "\x1b[?2026hA")]).isSome := by decide +kernel
  obtain ⟨reached, isReached⟩ := Option.isSome_iff_exists.mp runs
  exact ⟨reached, isReached, run_buffer_lt isReached⟩

end Checks

end Processor

end Warp.Ansi
