import Mathlib.Data.BitVec

/-!
# Keys

The key numbers and modifier bits of `keys.h` that the keyboard driver and the
modules use.  A key that is delivered is a key number with modifier bits.
-/

namespace OsdevX64.Kernel

/-- `KEY_UNKNOWN`. -/
def keyUnknown : BitVec 32 := 0

/-- `KEY_A`. -/
def keyA : BitVec 32 := 4

/-- `KEY_B`. -/
def keyB : BitVec 32 := 5

/-- `KEY_C`. -/
def keyC : BitVec 32 := 6

/-- `KEY_D`. -/
def keyD : BitVec 32 := 7

/-- `KEY_E`. -/
def keyE : BitVec 32 := 8

/-- `KEY_F`. -/
def keyF : BitVec 32 := 9

/-- `KEY_G`. -/
def keyG : BitVec 32 := 10

/-- `KEY_H`. -/
def keyH : BitVec 32 := 11

/-- `KEY_I`. -/
def keyI : BitVec 32 := 12

/-- `KEY_J`. -/
def keyJ : BitVec 32 := 13

/-- `KEY_K`. -/
def keyK : BitVec 32 := 14

/-- `KEY_L`. -/
def keyL : BitVec 32 := 15

/-- `KEY_M`. -/
def keyM : BitVec 32 := 16

/-- `KEY_N`. -/
def keyN : BitVec 32 := 17

/-- `KEY_O`. -/
def keyO : BitVec 32 := 18

/-- `KEY_P`. -/
def keyP : BitVec 32 := 19

/-- `KEY_Q`. -/
def keyQ : BitVec 32 := 20

/-- `KEY_R`. -/
def keyR : BitVec 32 := 21

/-- `KEY_S`. -/
def keyS : BitVec 32 := 22

/-- `KEY_T`. -/
def keyT : BitVec 32 := 23

/-- `KEY_U`. -/
def keyU : BitVec 32 := 24

/-- `KEY_V`. -/
def keyV : BitVec 32 := 25

/-- `KEY_W`. -/
def keyW : BitVec 32 := 26

/-- `KEY_X`. -/
def keyX : BitVec 32 := 27

/-- `KEY_Y`. -/
def keyY : BitVec 32 := 28

/-- `KEY_Z`. -/
def keyZ : BitVec 32 := 29

/-- `KEY_1`. -/
def key1 : BitVec 32 := 30

/-- `KEY_2`. -/
def key2 : BitVec 32 := 31

/-- `KEY_3`. -/
def key3 : BitVec 32 := 32

/-- `KEY_4`. -/
def key4 : BitVec 32 := 33

/-- `KEY_5`. -/
def key5 : BitVec 32 := 34

/-- `KEY_6`. -/
def key6 : BitVec 32 := 35

/-- `KEY_7`. -/
def key7 : BitVec 32 := 36

/-- `KEY_8`. -/
def key8 : BitVec 32 := 37

/-- `KEY_9`. -/
def key9 : BitVec 32 := 38

/-- `KEY_0`. -/
def key0 : BitVec 32 := 39

/-- `KEY_RETURN`. -/
def keyReturn : BitVec 32 := 40

/-- `KEY_ESCAPE`. -/
def keyEscape : BitVec 32 := 41

/-- `KEY_BACKSPACE`. -/
def keyBackspace : BitVec 32 := 42

/-- `KEY_TAB`. -/
def keyTab : BitVec 32 := 43

/-- `KEY_SPACE`. -/
def keySpace : BitVec 32 := 44

/-- `KEY_MINUS`. -/
def keyMinus : BitVec 32 := 45

/-- `KEY_EQUALS`. -/
def keyEquals : BitVec 32 := 46

/-- `KEY_L_BRACKET`. -/
def keyLBracket : BitVec 32 := 47

/-- `KEY_R_BRACKET`. -/
def keyRBracket : BitVec 32 := 48

/-- `KEY_BACKSLASH`. -/
def keyBackslash : BitVec 32 := 49

/-- `KEY_SEMICOLON`. -/
def keySemicolon : BitVec 32 := 51

/-- `KEY_GRAVE`. -/
def keyGrave : BitVec 32 := 53

/-- `KEY_COMMA`. -/
def keyComma : BitVec 32 := 54

/-- `KEY_PERIOD`. -/
def keyPeriod : BitVec 32 := 55

/-- `KEY_SLASH`. -/
def keySlash : BitVec 32 := 56

/-- `KEY_RIGHT`. -/
def keyRight : BitVec 32 := 79

/-- `KEY_LEFT`. -/
def keyLeft : BitVec 32 := 80

/-- `KEY_DOWN`. -/
def keyDown : BitVec 32 := 81

/-- `KEY_UP`. -/
def keyUp : BitVec 32 := 82

/-- `KEY_NON_US_BACKSLASH`. -/
def keyNonUsBackslash : BitVec 32 := 100

/-- `KEY_L_CTRL`. -/
def keyLCtrl : BitVec 32 := 224

/-- `KEY_L_SHIFT`. -/
def keyLShift : BitVec 32 := 225

/-- `KEY_L_ALT`. -/
def keyLAlt : BitVec 32 := 226

/-- `KEY_L_GUI`. -/
def keyLGui : BitVec 32 := 227

/-- `KEY_R_CTRL`. -/
def keyRCtrl : BitVec 32 := 228

/-- `KEY_R_SHIFT`. -/
def keyRShift : BitVec 32 := 229

/-- `KEY_R_ALT`. -/
def keyRAlt : BitVec 32 := 230

/-- `KEY_R_GUI`. -/
def keyRGui : BitVec 32 := 231

/-- `MOD_SHIFT`. -/
def modShift : BitVec 32 := 0x8000

/-- `MOD_CTRL`. -/
def modCtrl : BitVec 32 := 0x4000

/-- `MOD_OS`. -/
def modOs : BitVec 32 := 0x2000

/-- `MOD_ALT`. -/
def modAlt : BitVec 32 := 0x1000

/-- `MOD_ALT_GR`. -/
def modAltGr : BitVec 32 := 0x0800

end OsdevX64.Kernel
