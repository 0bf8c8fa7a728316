import Iputils.ReceivedTable

/-!
# The runtime state of ping

`struct ping_rts` with the fields that the modelled functions read or write,
under the source's names, and the values with which `main` initialises it. The
counters of type `long` range over ℤ. The accumulators `tsum` and `tsum2` are
doubles in the source; they only ever receive integers and are kept exact here.
-/
set_option autoImplicit false

namespace Iputils.PingState
open ReceivedTable

def minIntervalMs : ℤ := 10
def minUserIntervalMs : ℤ := 2
def maxpacket : ℕ := 65535
def longMax : ℤ := 9223372036854775807

/-- `TV_SEC_MAX_VAL`, that is `INT32_MAX/1000001`. -/
def tvSecMaxVal : ℤ := 2147

/-- `sizeof(struct timeval)`. -/
def timevalSize : ℤ := 16

/-- The macro `SCHINT`. -/
def schint (a : ℤ) : ℤ := if a ≤ minIntervalMs then minIntervalMs else a

structure Timespec where
  tvSec : ℤ := 0
  tvNsec : ℤ := 0
deriving Repr, DecidableEq

structure Timeval where
  tvSec : ℤ := 0
  tvUsec : ℤ := 0
deriving Repr, DecidableEq

/-- Subtract two timevals, borrowing one second when the microseconds go negative. -/
def tvsub (out tv : Timeval) : Timeval :=
  let usec := out.tvUsec - tv.tvUsec
  if usec < 0 then ⟨out.tvSec - 1 - tv.tvSec, usec + 1000000⟩
  else ⟨out.tvSec - tv.tvSec, usec⟩

def tssub (out ts : Timespec) : Timespec :=
  let nsec := out.tvNsec - ts.tvNsec
  if nsec < 0 then ⟨out.tvSec - 1 - ts.tvSec, nsec + 1000000000⟩
  else ⟨out.tvSec - ts.tvSec, nsec⟩

/-- The defaults are those of the static `rts` in `main`. -/
structure Rts where
  outpack : List UInt8 := List.replicate maxpacket 0
  rcvdTbl : RcvdTable := {}
  datalen : ℤ := 56
  hostname : List Char := []
  uid : ℤ := 0
  ident : ℤ := -1
  npackets : ℤ := 0
  nreceived : ℤ := 0
  nrepeats : ℤ := 0
  ntransmitted : ℤ := 0
  nchecksum : ℤ := 0
  nerrors : ℤ := 0
  interval : ℤ := 1000
  preload : ℤ := 1
  deadline : ℤ := 0
  lingertime : ℤ := 10000000
  startTime : Timespec := {}
  curTime : Timespec := {}
  exiting : Bool := false
  confirm : ℤ := 0
  confirmFlag : ℤ := 0x800
  timing : Bool := false
  tmin : ℤ := longMax
  tmax : ℤ := 0
  tsum : ℤ := 0
  tsum2 : ℤ := 0
  rtt : ℤ := 0
  rttAddend : ℤ := 0
  acked : ℤ := 0
  pipesize : ℤ := -1
  screenWidth : ℤ := 2147483647
  optAdaptive : Bool := false
  optFlood : Bool := false
  optJson : Bool := false
  optLatency : Bool := false
  optOutstanding : Bool := false
  optQuiet : Bool := false

end Iputils.PingState
