import SpmMulti.Machine
import SpmMulti.Lib.WaitingPrograms

/- initializeNetwork (source/netmemoryaccess.cpp) and the start-up it tries
   (source/net/network_wii.cpp). The calls of IOS_Open, IOS_Ioctl and IOS_Ioctlv are answered
   from a given list, in their order; a call that finds no answer waits for it, and a run ends
   there. IOS_Close succeeds. The error numbers are those of the C library. -/
namespace SpmNetworkStartup
open SpmMachine WaitingPrograms

def MAX_INIT_RETRIES : Nat := 32
def MAX_IP_RETRIES : Nat := 100
def NET_UNKNOWN_ERROR_OFFSET : Int := -10000
def IPC_ENOENT : Int := -6

def EAGAIN : Nat := 11
def EINVAL : Nat := 22
def ENETDOWN : Nat := 115
def ETIMEDOUT : Nat := 116
def EINPROGRESS : Nat := 119
def EALREADY : Nat := 120
def EISCONN : Nat := 127

def IOCTL_NWC24_STARTUP : Nat := 0x06
def IOCTL_NCD_GETLINKSTATUS : Nat := 0x07
def IOCTL_SO_GETHOSTID : Nat := 0x10
def IOCTL_SO_STARTUP : Nat := 0x1f

def _net_error_code_map : List Nat := [
  0, 0, 0, 0, 0, 0, EAGAIN, EALREADY, EINVAL, 0,
  0, 0, 0, 0, 0, 0, 0, 0, 0, 0,
  0, 0, 0, 0, 0, 0, EINPROGRESS, 0, 0, 0,
  EISCONN, 0, 0, 0, 0, 0, 0, 0, 0, ENETDOWN,
  0, 0, 0, 0, 0, 0, 0, 0, 0, 0,
  0, 0, 0, 0, 0, 0, 0, 0, 0, 0,
  0]

/-- An s32 from which NET_UNKNOWN_ERROR_OFFSET can be taken. -/
abbrev Answer := { n : Int // -2 ^ 31 + 10000 < n ∧ n < 2 ^ 31 }

inductive IosCall where
  | IOS_Open (filepath : String) (ret : Int)
  | IOS_Ioctl (fd : Int) (command : Nat) (ret : Int)
  | IOS_Ioctlv (fd : Int) (command : Nat) (ret : Int)
  | IOS_Close (fd : Int)

/-- A call of Mynet_init, and its return. -/
inductive Attempt where
  | started
  | returned (res : Int)
  deriving DecidableEq

structure World where
  answers : List Answer
  net_ip_top_fd : Int
  calls : List IosCall
  attempts : List Attempt

abbrev Program := Waiting World

def answered (call : Int → IosCall) : Program Int := do
  let w ← get
  match w.answers with
  | [] => failure
  | ret :: answers =>
    set { w with answers := answers, calls := w.calls ++ [call ret] }
    return ret

def IOS_Open (filepath : String) : Program Int := answered (.IOS_Open filepath)

def IOS_Ioctl (fd : Int) (command : Nat) : Program Int := answered (.IOS_Ioctl fd command)

def IOS_Ioctlv (fd : Int) (command : Nat) : Program Int := answered (.IOS_Ioctlv fd command)

def IOS_Close (fd : Int) : Program Unit :=
  modify fun w => { w with calls := w.calls ++ [.IOS_Close fd] }

def setTop (fd : Int) : Program Unit := modify fun w => { w with net_ip_top_fd := fd }

def record (a : Attempt) : Program Unit :=
  modify fun w => { w with attempts := w.attempts ++ [a] }

-- What the code reads at -61 is the byte behind the table.
variable (beyond : UInt8)

/-- A negative result and -sizeof are compared as u32, in which they keep their order. -/
def _net_convert_error (ios_retval : Int) : Int :=
  let code := (_net_error_code_map ++ [beyond.toNat]).getD (-ios_retval).toNat 0
  if ios_retval ≥ 0 then ios_retval
  else if ios_retval < -_net_error_code_map.length ∨ code = 0 then
    NET_UNKNOWN_ERROR_OFFSET + ios_retval
  else -code

/-- The do loop, for as many turns as there are answers, and the one that waits. -/
def openManageLoop : Nat → Program Int
  | 0 => failure
  | turns + 1 => do
    let ncd_fd := _net_convert_error beyond (← IOS_Open "/dev/net/ncd/manage")
    if ncd_fd = IPC_ENOENT then openManageLoop turns else return ncd_fd

def _open_manage_fd : Program Int := do
  let w ← get
  openManageLoop beyond (w.answers.length + 1)

def MyNCDGetLinkStatus : Program Int := do
  let ncd_fd ← _open_manage_fd beyond
  if ncd_fd < 0 then return ncd_fd
  let ret := _net_convert_error beyond (← IOS_Ioctlv ncd_fd IOCTL_NCD_GETLINKSTATUS)
  IOS_Close ncd_fd
  return ret

def MyNWC24iStartupSocket : Program Int := do
  let kd_fd := _net_convert_error beyond (← IOS_Open "/dev/net/kd/request")
  if kd_fd < 0 then return kd_fd
  let ret := _net_convert_error beyond (← IOS_Ioctl kd_fd IOCTL_NWC24_STARTUP)
  IOS_Close kd_fd
  return ret

/-- The for loop, with so many retries left. -/
def gethostidLoop : Nat → U32 → Program U32
  | 0, ip_addr => return ip_addr
  | left + 1, ip_addr =>
    if ip_addr = 0#32 then do
      let w ← get
      let ret ← IOS_Ioctl w.net_ip_top_fd IOCTL_SO_GETHOSTID
      gethostidLoop left (BitVec.ofInt 32 ret)
    else return ip_addr

def Mynet_gethostip : Program U32 := do
  let w ← get
  if w.net_ip_top_fd < 0 then return 0#32
  gethostidLoop MAX_IP_RETRIES 0#32

/-- What stands at the label error. -/
def Mynet_init_error (ret : Int) : Program Int := do
  let w ← get
  IOS_Close w.net_ip_top_fd
  setTop (-1)
  return ret

/-- The part of Mynet_init from which error is reached, with net_ip_top_fd open. -/
def Mynet_init_opened : Program Int := do
  let ret ← MyNWC24iStartupSocket beyond
  if ret < 0 then Mynet_init_error ret
  else
    let w ← get
    let ret := _net_convert_error beyond (← IOS_Ioctl w.net_ip_top_fd IOCTL_SO_STARTUP)
    if ret < 0 then Mynet_init_error ret
    else
      let ip_addr ← Mynet_gethostip
      if ip_addr = 0#32 then Mynet_init_error (-ETIMEDOUT) else return 0

def Mynet_init : Program Int := do
  let w ← get
  if w.net_ip_top_fd ≥ 0 then return 0
  let ret ← MyNCDGetLinkStatus beyond
  if ret < 0 then return ret
  setTop (_net_convert_error beyond (← IOS_Open "/dev/net/ip/top"))
  let w ← get
  if w.net_ip_top_fd < 0 then return w.net_ip_top_fd
  Mynet_init_opened beyond

def attempt : Program Int := do
  record .started
  let res ← Mynet_init beyond
  record (.returned res)
  return res

/-- The for loop, with so many attempts left. -/
def initializeLoop : Nat → Int → Program Int
  | 0, res => return res
  | left + 1, _ => do
    let res ← attempt beyond
    if res = -EAGAIN ∨ res = -ETIMEDOUT then initializeLoop left res else return res

/-- res has no value before the loop; the first turn gives it one. -/
def initializeNetwork : Program Int := initializeLoop beyond MAX_INIT_RETRIES 0

def start (answers : List Answer) : World := ⟨answers, -1, [], []⟩

end SpmNetworkStartup
