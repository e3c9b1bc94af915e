/-! Enumerations and error numbers of async_io_constants.hpp and errno.h. -/
namespace Talon

inductive TaskType where
  | kNone
  | kRead
  | kWrite
  | kAccept
  | kConnect
  | kClose
  | kTimeout
  | kCancel
  | kLinkTimeout
  | kTimeoutRemove
  | kTimeoutUpdate
  deriving DecidableEq, Repr

inductive TaskState where
  | kReady
  | kSubmitted
  | kSuccess
  | kFailed
  | kTimeout
  | kCanceled
  deriving DecidableEq, Repr

/-- The event bits of a `user_data` word. `kMask` stands for every combination
of two or three bits: `DispatchCqe` treats them alike. -/
inductive EventFlag where
  | kNone
  | kTimeout
  | kError
  | kCancel
  | kMask
  deriving DecidableEq, Inhabited, Repr

def EINTR : Int := 4

/-- On Linux `EWOULDBLOCK` is the same number. -/
def EAGAIN : Int := 11

def EINVAL : Int := 22

def ETIME : Int := 62

def ECANCELED : Int := 125

def AF_INET : Nat := 2

/-- `sizeof(sockaddr_in)` -/
def sockaddrInSize : Nat := 16

end Talon
