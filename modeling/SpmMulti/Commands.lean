import SpmMulti.CommandManager
import SpmMulti.Strtoul
import SpmMulti.Base64

/- source/commands.cpp: the three registered commands. A u32 local is read with toNat, an
   s32 local with toInt; the addition of an s32 to a u32 is the 32-bit sum. -/
namespace SpmCommands
open SpmMachine SpmStrtoul SpmBase64 SpmConsole SpmCommandManager

def rangeError : String :=
  "Error: Address (%x) or end of buffer (%x) outside of MEM1's range (0x80000000 - 0x817fffff).\n"

def base64Error : String := "Error: Invalid Base64 data.\n"

/-- The s32 parameter is compared with unsigned constants, so as an unsigned number. -/
def isWithinMem1Range (ptr : U32) : Bool := 0x80000000#32 ≤ ptr && ptr ≤ 0x817fffff#32

def readBody (lib : Snprintf) (ptr size : U32) (responseSize : Nat) (c : Console) :
    U32 × Console :=
  if responseSize < size.toNat then
    c.report lib responseSize
      "Error: Requested more bytes (%d) than the allocated buffer's size (%d).\n"
      [size, BitVec.ofNat 32 responseSize]
  else if ptr < 0x80000000#32 ∨ 0x817fffff#32 < ptr + size then
    c.report lib responseSize rangeError [ptr, ptr + size]
  else (size, c.copyOut ptr size)

def read (lib : Snprintf) : Command where
  name := text "read"
  helpMsg := "Reads memory from the console. (read address n)"
  argc := 2
  cb := fun args responseSize c => do
    let address ← vectorAt args 0
    let n ← vectorAt args 1
    return readBody lib (strtoul address 16) (strtoul n 10) responseSize c

/-- The write callback after its two strtoul calls; decodedLen is an s32, its memcpy count
    the same bits as a size_t. -/
def writeBody (lib : Snprintf) (dest : U32) (b64data : List UInt8) (decodedLen : U32)
    (responseSize : Nat) (c : Console) : U32 × Console :=
  if !isValidBase64 b64data decodedLen.toInt then
    c.report lib responseSize base64Error []
  else if !isWithinMem1Range dest || !isWithinMem1Range (dest + decodedLen) then
    c.report lib responseSize rangeError [dest, dest + decodedLen]
  else
    let stored := (Base64decode b64data).1
    let decodedData := c.freshBlock stored
    let c := (c.decodeInto decodedLen.toInt stored).copyIn dest decodedLen decodedData
    (4, c.respond (wordBytes decodedLen))

def write (lib : Snprintf) : Command where
  name := text "write"
  helpMsg := "Writes memory to the console. (write address base64_encoded_bytearray decoded_size)"
  argc := 3
  cb := fun args responseSize c => do
    let address ← vectorAt args 0
    let b64data ← vectorAt args 1
    let size ← vectorAt args 2
    return writeBody lib (strtoul address 16) b64data (strtoul size 10) responseSize c

def msgboxBody (lib : Snprintf) (b64data : List UInt8) (msgboxTextLen : U32)
    (responseSize : Nat) (c : Console) : U32 × Console :=
  if !isValidBase64 b64data msgboxTextLen.toInt then
    c.report lib responseSize base64Error []
  else
    let allocated := (msgboxTextLen + 1).toInt
    let stored := (Base64decode b64data).1
    let msgboxText := c.freshBlock stored
    let address := (c.heap 0).address
    let c := (c.decodeInto allocated stored).terminate allocated address msgboxTextLen.toInt
    let c := c.startEvt allocated (terminated msgboxText msgboxTextLen.toInt)
    (4, c.respond (wordBytes msgboxTextLen))

def msgbox (lib : Snprintf) : Command where
  name := text "msgbox"
  helpMsg := "Displays a message box on the screen. (msgbox base64_encoded_string size)"
  argc := 2
  cb := fun args responseSize c => do
    let b64data ← vectorAt args 0
    let size ← vectorAt args 1
    return msgboxBody lib b64data (strtoul size 10) responseSize c

/-- CreateInstance returns the instance that is there, or a new one without commands. -/
def initCommands (lib : Snprintf) (s_instance : Option CommandManager) : CommandManager :=
  let commandManager := s_instance.getD CommandManager.empty
  let commandManager := (commandManager.addCommand (read lib)).2
  let commandManager := (commandManager.addCommand (write lib)).2
  (commandManager.addCommand (msgbox lib)).2

def registry (lib : Snprintf) : CommandManager := initCommands lib none

theorem registry_commands (lib : Snprintf) :
    (registry lib).commands = [read lib, write lib, msgbox lib] := by
  rfl

end SpmCommands
