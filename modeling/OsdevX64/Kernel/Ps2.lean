import OsdevX64.Kernel.Keys
import OsdevX64.Kernel.Signals

/-!
# The keyboard driver

`kernel/ps2.c`.  `keyboard_irq_handler` decodes a scancode and then calls the
registered handler; `decode` is the first part, with the static variables `esc`
and `mods` as its state.  The prefix `0xE0` produces no key event, every other
byte exactly one.
-/

namespace OsdevX64.Kernel

/-- `toupper`, from `ctype.h`. -/
def toupper (c : BitVec 32) : BitVec 32 := if 0x61 ≤ c ∧ c ≤ 0x7A then c - 0x61 + 0x41 else c

/-- `numbers`. -/
def numbers : List (BitVec 32) := [0x31, 0x32, 0x33, 0x34, 0x35, 0x36, 0x37, 0x38, 0x39, 0x30]

/-- `numbers_shift`. -/
def numbersShift : List (BitVec 32) := [0x21, 0x22, 0, 0x24, 0x25, 0x26, 0x2F, 0x28, 0x29, 0x3D]

/-- `numbers_altgr`. -/
def numbersAltGr : List (BitVec 32) := [0, 0, 0, 0, 0, 0, 0x7B, 0x5B, 0x5D, 0x7D]

/-- The letter keys of `key_to_codepoint`. -/
def letterToCodepoint (k nomods : BitVec 32) : BitVec 32 :=
  let c := nomods - keyA + 0x61
  let c := if c = 0x7A then 0x79 else if c = 0x79 then 0x7A else c
  if k &&& modAltGr ≠ 0 ∧ c = 0x71 then 0x40
  else if k &&& modShift ≠ 0 then toupper c
  else c

/-- The number keys of `key_to_codepoint`. -/
def numberToCodepoint (k nomods : BitVec 32) : BitVec 32 :=
  let idx := (nomods - key1).toNat
  if k &&& modShift ≠ 0 then numbersShift.getD idx 0
  else if k &&& modAltGr ≠ 0 then numbersAltGr.getD idx 0
  else numbers.getD idx 0

/-- `key_to_codepoint`. -/
def keyToCodepoint (k : BitVec 32) : BitVec 32 :=
  let nomods := k &&& 0xFF
  if nomods = keyTab then 0x09
  else if nomods = keyBackspace then 0x08
  else if nomods = keyReturn then 0x0A
  else if nomods = keySpace then 0x20
  -- compared with their modifiers: another one held selects no branch
  else if k = keyComma ||| modShift then 0x3B
  else if k = keyComma then 0x2C
  else if k = keyPeriod ||| modShift then 0x3A
  else if k = keyPeriod then 0x2E
  else if k = keySlash ||| modShift then 0x5F
  else if k = keySlash then 0x2D
  else if k = keyBackslash ||| modShift then 0x27
  else if k = keyBackslash then 0x23
  else if k = keyRBracket ||| modShift then 0x2A
  else if k = keyRBracket ||| modAltGr then 0x7E
  else if k = keyRBracket then 0x2B
  else if k = keyNonUsBackslash ||| modShift then 0x3E
  else if k = keyNonUsBackslash ||| modAltGr then 0x7C
  else if k = keyNonUsBackslash then 0x3C
  else if k = keyMinus ||| modShift then 0x3F
  else if k = keyMinus ||| modAltGr then 0x5C
  else if k = keyEquals ||| modShift then 0x60
  else if k = keyGrave then 0x5E
  else if keyA ≤ nomods ∧ nomods ≤ keyZ then letterToCodepoint k nomods
  else if key1 ≤ nomods ∧ nomods ≤ key0 then numberToCodepoint k nomods
  else 0

/-- The second switch of `scancode_to_key`. -/
def scancodes : List (BitVec 32 × BitVec 32) :=
  [(0x01, keyEscape), (0x02, key1), (0x03, key2), (0x04, key3), (0x05, key4), (0x06, key5),
    (0x07, key6), (0x08, key7), (0x09, key8), (0x0A, key9), (0x0B, key0), (0x0C, keyMinus),
    (0x0D, keyEquals), (0x0E, keyBackspace), (0x0F, keyTab), (0x10, keyQ), (0x11, keyW),
    (0x12, keyE), (0x13, keyR), (0x14, keyT), (0x15, keyY), (0x16, keyU), (0x17, keyI),
    (0x18, keyO), (0x19, keyP), (0x1A, keyLBracket), (0x1B, keyRBracket), (0x1C, keyReturn),
    (0x1D, keyLCtrl), (0x1E, keyA), (0x1F, keyS), (0x20, keyD), (0x21, keyF), (0x22, keyG),
    (0x23, keyH), (0x24, keyJ), (0x25, keyK), (0x26, keyL), (0x27, keySemicolon),
    (0x29, keyGrave), (0x2A, keyLShift), (0x2B, keyBackslash), (0x2C, keyZ), (0x2D, keyX),
    (0x2E, keyC), (0x2F, keyV), (0x30, keyB), (0x31, keyN), (0x32, keyM), (0x33, keyComma),
    (0x34, keyPeriod), (0x35, keySlash), (0x36, keyRShift), (0x38, keyLAlt), (0x39, keySpace),
    (0x56, keyNonUsBackslash), (0x5B, keyLGui)]

/-- `scancode_to_key`. -/
def scancodeToKey (scancode esc : BitVec 32) : BitVec 32 :=
  if esc ≠ 0 then if scancode = 0x38 then keyRAlt else keyUnknown
  else (scancodes.lookup scancode).getD keyUnknown

/-- The modifier a key stands for, or 0. -/
def modOf (key : BitVec 32) : BitVec 32 :=
  if key = keyLAlt then modAlt
  else if key = keyRAlt then modAltGr
  else if key = keyLShift ∨ key = keyRShift then modShift
  else if key = keyLCtrl ∨ key = keyRCtrl then modCtrl
  else if key = keyLGui ∨ key = keyRGui then modOs
  else 0

/-- The static variables of `keyboard_irq_handler`. -/
structure Decoder where
  esc : BitVec 32
  mods : BitVec 32
  deriving DecidableEq, Repr

/-- `keyboard_irq_handler` up to the call of the handler, and its arguments. -/
def decode (d : Decoder) (scancode : BitVec 8) : Decoder × Option ModuleKeyEvent :=
  let scancode := scancode.setWidth 32
  -- the prefix is remembered and calls nobody
  if scancode = 0xE0 then ({ d with esc := 1 }, none)
  else
    let released := (scancode >>> 7) &&& 1
    let key := scancodeToKey (scancode &&& 0x7F) d.esc
    let mod := modOf key
    let mods :=
      if mod ≠ 0 then if released ≠ 0 then d.mods &&& ~~~mod else d.mods ||| mod
      else d.mods
    let key := key ||| mods
    ({ esc := 0, mods := mods },
      some { key := key, codepoint := keyToCodepoint key, released := released })

end OsdevX64.Kernel
