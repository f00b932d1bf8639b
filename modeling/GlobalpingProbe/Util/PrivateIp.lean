import GlobalpingProbe.Net.IpAddr

/-! # Private address ranges

The local addresses of the machine are read from the system at each call, so they are an
argument here.
-/
namespace GlobalpingProbe
open Net

/-- A network: an address with the length of its prefix. -/
inductive IpNet where
  | v4 (addr : Ipv4Addr) (prefixLen : ℕ)
  | v6 (addr : Ipv6Addr) (prefixLen : ℕ)
  deriving DecidableEq, Repr

def IpNet.contains : IpNet → IpAddr → Bool
  | .v4 net n, .v4 ip => net >>> (32 - n) = ip >>> (32 - n)
  | .v6 net n, .v6 ip => net >>> (128 - n) = ip >>> (128 - n)
  | _, _ => false

def privateRanges : List IpNet :=
  [.v4 (.ofOctets 0 0 0 0) 8, .v4 (.ofOctets 10 0 0 0) 8, .v4 (.ofOctets 100 64 0 0) 10,
    .v4 (.ofOctets 127 0 0 0) 8, .v4 (.ofOctets 169 254 0 0) 16, .v4 (.ofOctets 172 16 0 0) 12,
    .v4 (.ofOctets 192 0 0 0) 24, .v4 (.ofOctets 192 0 2 0) 24, .v4 (.ofOctets 192 88 99 0) 24,
    .v4 (.ofOctets 192 168 0 0) 16, .v4 (.ofOctets 198 18 0 0) 15, .v4 (.ofOctets 198 51 100 0) 24,
    .v4 (.ofOctets 203 0 113 0) 24, .v4 (.ofOctets 224 0 0 0) 4, .v4 (.ofOctets 240 0 0 0) 4,
    .v4 (.ofOctets 255 255 255 255) 32,
    .v6 (.ofSegments [0, 0, 0, 0, 0, 0, 0, 0]) 128, .v6 (.ofSegments [0, 0, 0, 0, 0, 0, 0, 1]) 128,
    .v6 (.ofSegments [0x64, 0xff9b, 1, 0, 0, 0, 0, 0]) 48,
    .v6 (.ofSegments [0x100, 0, 0, 0, 0, 0, 0, 0]) 64,
    .v6 (.ofSegments [0x2001, 0, 0, 0, 0, 0, 0, 0]) 32,
    .v6 (.ofSegments [0x2001, 0x10, 0, 0, 0, 0, 0, 0]) 28,
    .v6 (.ofSegments [0x2001, 0x20, 0, 0, 0, 0, 0, 0]) 28,
    .v6 (.ofSegments [0x2001, 0xdb8, 0, 0, 0, 0, 0, 0]) 32,
    .v6 (.ofSegments [0x2002, 0, 0, 0, 0, 0, 0, 0]) 16,
    .v6 (.ofSegments [0xfc00, 0, 0, 0, 0, 0, 0, 0]) 7,
    .v6 (.ofSegments [0xfe80, 0, 0, 0, 0, 0, 0, 0]) 10,
    .v6 (.ofSegments [0xff00, 0, 0, 0, 0, 0, 0, 0]) 8]

def segment (a : Ipv6Addr) (i : ℕ) : BitVec 16 := a.extractLsb' (112 - 16 * i) 16

def lowIpv4 (a : Ipv6Addr) : Ipv4Addr := a.extractLsb' 0 32

def toIpv4Mapped (a : Ipv6Addr) : Option Ipv4Addr :=
  if (List.range 5).all (fun i => segment a i = 0) ∧ segment a 5 = 0xffff then some (lowIpv4 a)
  else none

/-- IPv6 addresses that embed an IPv4 address collapse to it. -/
def canonicalize : IpAddr → IpAddr
  | .v4 a => .v4 a
  | .v6 a =>
    match toIpv4Mapped a with
    | some b => .v4 b
    | none =>
      if segment a 0 = 0x0064 ∧ segment a 1 = 0xff9b ∧
          [2, 3, 4, 5].all (fun i => segment a i = 0) then .v4 (lowIpv4 a)
      else .v6 a

def isIpPrivate (localIps : List IpAddr) (ip : IpAddr) : Bool :=
  let ip := canonicalize ip
  localIps.contains ip || privateRanges.any (fun net => net.contains ip)

example : isIpPrivate [] (.v4 (.ofOctets 100 127 255 255)) = true := by decide
example : isIpPrivate [] (.v6 (.ofSegments [0, 0, 0, 0, 0, 0xffff, 0xa9fe, 0xa9fe])) = true := by
  decide

end GlobalpingProbe
