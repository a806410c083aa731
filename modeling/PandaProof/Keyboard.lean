import Mathlib.Data.List.Basic

/-!
# The keyboard decoder

`Decoder::key` of `input.rs`: one set 1 byte at a time, with what is held of the modifiers kept
between them.  Each shift key has a flag of its own, but the two control keys share one, and so
do the two alt keys.  The bits of an event are true to the keys as long as no control or alt key
is released while the other one of the two is held (`true_to_keys`).
-/
namespace Panda.Keyboard

open List

/-- The fields of `Decoder` that keys are about. -/
structure Decoder where
  /-- The previous byte was 0xE0. -/
  extended : Bool
  leftShift : Bool
  rightShift : Bool
  ctrl : Bool
  alt : Bool

def Decoder.new : Decoder := ⟨false, false, false, false, false⟩

def escape : Nat := 0x01

def modifierShift : UInt64 := 1
def modifierCtrl : UInt64 := 2
def modifierAlt : UInt64 := 4

/-- US layout, indexed by set 1 scancode, for 0x00 to 0x39. -/
def unshifted : List Char :=
  "\x00\x1b1234567890-=\x08\tqwertyuiop[]\n\x00asdfghjkl;'`\x00\\zxcvbnm,./\x00*\x00 ".toList

def shifted : List Char :=
  "\x00\x1b!@#$%^&*()_+\x08\tQWERTYUIOP\x7b\x7d\n\x00ASDFGHJKL:\"~\x00|ZXCVBNM<>?\x00*\x00 ".toList

/-- The words of a `TAG_KEY` message. -/
structure KeyEvent where
  ascii : Nat
  code : Nat
  pressed : Bool
  modifiers : UInt64

def pressedBy (byte : UInt8) : Bool := byte &&& 0x80 = 0

def codeOf (extended : Bool) (byte : UInt8) : Nat :=
  (byte &&& 0x7F).toNat ||| if extended then 0x100 else 0

namespace Decoder

def hold (d : Decoder) (code : Nat) (pressed : Bool) : Decoder :=
  if code = 0x2A then { d with leftShift := pressed }
  else if code = 0x36 then { d with rightShift := pressed }
  else if code = 0x1D ∨ code = 0x11D then { d with ctrl := pressed }
  else if code = 0x38 ∨ code = 0x138 then { d with alt := pressed }
  else d

def modifiers (d : Decoder) : UInt64 :=
  (if d.leftShift || d.rightShift then modifierShift else 0) |||
    (if d.ctrl then modifierCtrl else 0) ||| if d.alt then modifierAlt else 0

/-- Printable characters and the few control keys a text consumer expects. -/
def ascii (d : Decoder) (code : Nat) (pressed : Bool) : Nat :=
  match (if d.leftShift || d.rightShift then shifted else unshifted)[code]? with
  | some ch => if pressed ∧ (0x20 ≤ ch.toNat ∧ ch.toNat ≤ 0x7E ∨
      ch = '\n' ∨ ch = '\t' ∨ ch = '\x08') then ch.toNat else 0
  | none => 0

/-- One set 1 byte: the event it sends, if any; `none` for Escape, which ends the process. -/
def key (d : Decoder) (byte : UInt8) : Option (Decoder × Option KeyEvent) :=
  if byte = 0xE0 then some ({ d with extended := true }, none)
  else
    let pressed := pressedBy byte
    let code := codeOf d.extended byte
    let d := hold { d with extended := false } code pressed
    if code = escape ∧ pressed then none
    else some (d, some ⟨d.ascii code pressed, code, pressed, d.modifiers⟩)

end Decoder

/-- The decoder after one more byte, and what it has sent, newest first. -/
def feed (r : Decoder × List KeyEvent) (byte : UInt8) : Option (Decoder × List KeyEvent) :=
  (r.1.key byte).map fun out => (out.1, out.2.toList ++ r.2)

/-! ## What the keys do -/

/-- A complete scancode. -/
structure Scancode where
  extended : Bool
  byte : UInt8
  complete : byte ≠ 0xE0

namespace Scancode

def bytes (c : Scancode) : List UInt8 := if c.extended then [0xE0, c.byte] else [c.byte]

def code (c : Scancode) : Nat := codeOf c.extended c.byte

def pressed (c : Scancode) : Bool := pressedBy c.byte

end Scancode

/-- The key was pressed and not released since; the scancodes are given newest first. -/
def held (key : Nat) : List Scancode → Bool
  | [] => false
  | c :: codes => if c.code = key then c.pressed else held key codes

/-- The modifier bits of an event say which keys are held. -/
def KeyEvent.Shows (e : KeyEvent) (codes : List Scancode) : Prop :=
  (e.modifiers &&& modifierShift ≠ 0 ↔ held 0x2A codes || held 0x36 codes) ∧
  (e.modifiers &&& modifierCtrl ≠ 0 ↔ held 0x1D codes || held 0x11D codes) ∧
  (e.modifiers &&& modifierAlt ≠ 0 ↔ held 0x38 codes || held 0x138 codes)

/-- One event for each scancode, with its bits true to the keys up to there. -/
def AllShow : List Scancode → List KeyEvent → Prop
  | [], [] => True
  | c :: codes, e :: events => e.Shows (c :: codes) ∧ AllShow codes events
  | _, _ => False

/-- No control or alt key is released while its twin is held. -/
def NoTwin : List Scancode → Prop
  | [] => True
  | c :: codes => (∀ twins ∈ [(0x1D, 0x11D), (0x38, 0x138)], c.pressed = false →
      (c.code = twins.1 → held twins.2 codes = false) ∧
      (c.code = twins.2 → held twins.1 codes = false)) ∧ NoTwin codes

/-! ## What the decoder keeps -/

variable {c : Scancode} {codes : List Scancode} {d : Decoder} {code : Nat} {pressed : Bool}

structure Agrees (codes : List Scancode) (d : Decoder) : Prop where
  extended : d.extended = false
  leftShift : d.leftShift = held 0x2A codes
  rightShift : d.rightShift = held 0x36 codes
  ctrl : d.ctrl = (held 0x1D codes || held 0x11D codes)
  alt : d.alt = (held 0x38 codes || held 0x138 codes)

/-- A flag that two keys share follows them both, where no twin is held. -/
theorem Agrees.hold (h : Agrees codes d) (htwin : NoTwin (c :: codes)) :
    Agrees (c :: codes) (d.hold c.code c.pressed) := by
  obtain ⟨hextended, hleft, hright, hctrl, halt⟩ := h
  have hctrls := htwin.1 (0x1D, 0x11D) (by simp)
  have halts := htwin.1 (0x38, 0x138) (by simp)
  unfold Decoder.hold
  constructor <;> grind [held]

theorem Agrees.shows (h : Agrees codes d) {e : KeyEvent} (he : e.modifiers = d.modifiers) :
    e.Shows codes := by
  rw [KeyEvent.Shows, he, Decoder.modifiers, h.leftShift, h.rightShift, h.ctrl, h.alt]
  cases held 0x2A codes || held 0x36 codes <;> cases held 0x1D codes || held 0x11D codes <;>
    cases held 0x38 codes || held 0x138 codes <;> decide

/-- A complete scancode is one event, unless it is Escape going down. -/
theorem feed_scancode (h : d.extended = false) (hescape : ¬(c.code = escape ∧ c.pressed = true))
    (events : List KeyEvent) : ∃ e : KeyEvent, e.modifiers = (d.hold c.code c.pressed).modifiers ∧
      c.bytes.foldlM feed (d, events) = some (d.hold c.code c.pressed, e :: events) := by
  obtain ⟨extended, left, right, ctrl, alt⟩ := d
  obtain rfl : extended = false := h
  have hbytes : c.bytes.foldlM feed (⟨false, left, right, ctrl, alt⟩, events) =
      feed (⟨c.extended, left, right, ctrl, alt⟩, events) c.byte := by
    cases hc : c.extended <;> simp [Scancode.bytes, hc, feed, Decoder.key]
  rw [hbytes, feed, Decoder.key, if_neg c.complete]
  exact ⟨_, rfl, congrArg _ (if_neg hescape)⟩

/-- **The modifier bits are true to the keys**, over any complete scancodes without Escape, given
newest first, as long as no control or alt key is released while its twin is held. -/
theorem true_to_keys (codes : List Scancode)
    (hescape : ∀ c ∈ codes, ¬(c.code = escape ∧ c.pressed = true)) (htwin : NoTwin codes) :
    ∃ d events, (codes.reverse.flatMap Scancode.bytes).foldlM feed (.new, []) = some (d, events) ∧
      AllShow codes events := by
  suffices h : ∃ d events, (codes.reverse.flatMap Scancode.bytes).foldlM feed (.new, []) =
      some (d, events) ∧ Agrees codes d ∧ AllShow codes events by
    obtain ⟨d, events, hrun, -, hall⟩ := h
    exact ⟨d, events, hrun, hall⟩
  induction codes with
  | nil => exact ⟨.new, [], rfl, ⟨rfl, rfl, rfl, rfl, rfl⟩, trivial⟩
  | cons c codes ih =>
    rw [forall_mem_cons] at hescape
    obtain ⟨d, events, hrun, hagrees, hall⟩ := ih hescape.2 htwin.2
    obtain ⟨e, he, hfeed⟩ := feed_scancode hagrees.extended hescape.1 events
    refine ⟨_, e :: events, ?_, hagrees.hold htwin, (hagrees.hold htwin).shows he, hall⟩
    rw [reverse_cons, flatMap_append, foldlM_append, hrun]
    simpa using hfeed

def leftShiftDown : Scancode := ⟨false, 0x2A, of_decide_eq_true rfl⟩
def leftCtrlDown : Scancode := ⟨false, 0x1D, of_decide_eq_true rfl⟩
def rightCtrlDown : Scancode := ⟨true, 0x1D, of_decide_eq_true rfl⟩
def rightCtrlUp : Scancode := ⟨true, 0x9D, of_decide_eq_true rfl⟩

theorem true_to_keys_shift : ∃ d events,
    ([leftShiftDown, rightCtrlDown, rightCtrlUp].flatMap Scancode.bytes).foldlM feed (.new, []) =
      some (d, events) ∧ AllShow [rightCtrlUp, rightCtrlDown, leftShiftDown] events :=
  true_to_keys [rightCtrlUp, rightCtrlDown, leftShiftDown] (by decide)
    ⟨by decide, by decide, by decide, trivial⟩

/-- **The twin is forgotten**: left control is held all the time, and the event of the other one
going up has the bit cleared. -/
theorem twin_forgotten : ∃ d e events,
    ([leftCtrlDown, rightCtrlDown, rightCtrlUp].flatMap Scancode.bytes).foldlM feed (.new, []) =
      some (d, e :: events) ∧ e.modifiers &&& modifierCtrl = 0 ∧
    held 0x1D [rightCtrlUp, rightCtrlDown, leftCtrlDown] = true :=
  ⟨_, _, _, rfl, by decide, by decide⟩

end Panda.Keyboard
