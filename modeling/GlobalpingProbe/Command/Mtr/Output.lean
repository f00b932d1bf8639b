import GlobalpingProbe.Command.Mtr.Parse
import GlobalpingProbe.Foundation.Utf8

/-! # The table that mtr prints

Hops without an address at the end are left out, but for the first of them. Columns are as
wide as their widest entry in bytes, while padding counts characters.
-/
namespace GlobalpingProbe.Command.Mtr
open Foundation Foundation.Utf8

def padLeft (width : ℕ) (s : Text) : Text := List.replicate (width - s.length) ' ' ++ s
def padRight (width : ℕ) (s : Text) : Text := s ++ List.replicate (width - s.length) ' '

def decimal (n : ℕ) : Text := (Nat.repr n).toList

theorem isDigit_of_mem_decimal {n : ℕ} {c : Char} (h : c ∈ decimal n) : c.isDigit = true := by
  rw [decimal, Nat.toList_repr] at h
  exact Nat.isDigit_of_mem_toDigits (by decide) (by decide) h

/-- From the hop before this one on, no hop has an address. -/
def silentFrom (hops : List MtrHop) (i : ℕ) : Bool :=
  (hops.drop (i - 1)).all (·.resolvedAddress.isNone)

/-- The hops of the table, without their old indices. -/
def shownHops (hops : List MtrHop) : List MtrHop :=
  (hops.zipIdx.filter (fun p => !(p.1.resolvedAddress.isNone && silentFrom hops p.2))).map (·.1)

def asnStr (h : MtrHop) : Text :=
  if h.asn.isEmpty then "AS???".toList
  else "AS".toList ++ [' '].intercalate (h.asn.map decimal)

/-- The first hop shown is always the gateway. -/
def displayHost (displayI : ℕ) (h : MtrHop) : Text :=
  if displayI = 0 then "_gateway".toList else (h.resolvedHostname.or h.resolvedAddress).getD []

structure Columns where
  idx : ℕ
  asn : ℕ
  host : ℕ
  drop : ℕ
  rcv : ℕ
  avg : ℕ
  deriving DecidableEq, Repr

def lossWidth : ℕ := 6
def stDevWidth : ℕ := 6
def jAvgWidth : ℕ := 5

def Columns.hostCol (w : Columns) : ℕ := w.idx + w.asn + w.host + 4

def widest (default : ℕ) (entries : List Text) : ℕ := (entries.map byteLen).max?.getD default

def columns (shown : List MtrHop) : Columns :=
  let addrWidth := widest 0 (shown.map (fun h => h.resolvedAddress.getD []))
  let hostWidth := widest 0 (shown.zipIdx.map (fun p => displayHost p.2 p.1))
  let dropMax := widest 1 (shown.map (fun h => decimal h.stats.drop))
  { idx := (decimal shown.length).length
    asn := 2 + widest 5 (shown.map asnStr)
    host := 3 + addrWidth + hostWidth
    drop := max dropMax 4
    rcv := 2 + dropMax
    avg := max (widest 3 (shown.map (fun h => h.stats.avg.toText))) 3 }

def headerRow (w : Columns) : Text :=
  [' '].intercalate [padRight w.hostCol "Host".toList, padLeft (lossWidth + 1) "Loss%".toList,
    padLeft w.drop "Drop".toList, padLeft w.rcv "Rcv".toList, padLeft w.avg "Avg".toList,
    padLeft stDevWidth "StDev".toList, padLeft jAvgWidth "Javg".toList] ++ ['\n']

/-- The figures of a hop with an address. -/
def statsCells (w : Columns) (s : HopStats) : Text :=
  ' ' :: [' '].intercalate [padLeft (lossWidth - 1) s.loss.toText ++ ['%'],
    padLeft w.drop (decimal s.drop), padLeft w.rcv (decimal s.rcv), padLeft w.avg s.avg.toText,
    padLeft stDevWidth s.stDev.toText, padLeft jAvgWidth s.jAvg.toText]

def dataRow (w : Columns) (displayI : ℕ) (hop : MtrHop) : Text :=
  let sindex := padLeft w.idx (decimal (displayI + 1)) ++ ['.']
  let sasn := padRight w.asn (asnStr hop)
  let shost := padRight w.host (match hop.resolvedAddress with
    | some addr => displayHost displayI hop ++ " (".toList ++ addr ++ [')']
    | none => "(waiting for reply)".toList)
  let line := [' '].intercalate [sindex, sasn, shost]
  line ++ (if hop.resolvedAddress.isSome then statsCells w hop.stats else []) ++ ['\n']

def buildOutput (hops : List MtrHop) : Text :=
  let shown := shownHops hops
  if shown.isEmpty then []
  else headerRow (columns shown) ++
    (shown.zipIdx.map (fun p => dataRow (columns shown) p.2 p.1)).flatten

end GlobalpingProbe.Command.Mtr
