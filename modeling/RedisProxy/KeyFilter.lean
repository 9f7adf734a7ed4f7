import Mathlib.Data.List.Basic

/-!
# Key filters

The prefix filters of the replication, from `replica/gr_keyfilter.cpp`.
-/

namespace RedisProxy

/-- A `char *` into the key, or into the text of a filter of the configuration. -/
inductive FilterPtr where
  | key (iOffset : Nat)
  | filter (iFilter iOffset : Nat)
deriving DecidableEq

def FilterPtr.next : FilterPtr → FilterPtr
  | .key iOffset => .key (iOffset + 1)
  | .filter iFilter iOffset => .filter iFilter (iOffset + 1)

structure FilterSrc where
  iLen : Nat
  szSrc : FilterPtr

/-- An element of `vFilters` that nothing has been written to is `none`. -/
structure FilterList where
  iNum : Nat
  iCapt : Nat
  vFilters : List (Option FilterSrc)

namespace FilterList

/-- As many bytes are copied as there were elements. An element of 24 bytes is kept if its first 16, `iLen` and
`szSrc`, are among them. -/
def expand (l : FilterList) : FilterList :=
  let iCapt := l.iCapt * 2
  { l with
    iCapt
    vFilters := (List.range iCapt).map fun i => if 24 * i + 16 ≤ iCapt / 2 then l.vFilters.getD i none else none }

def addFilter (l : FilterList) (szSrc : FilterPtr) (iLen : Nat) : FilterList :=
  let l := if l.iNum = l.iCapt then l.expand else l
  { l with vFilters := l.vFilters.set l.iNum (some ⟨iLen, szSrc⟩), iNum := l.iNum + 1 }

/-- The inner loop of `Match`, with `iLen - j` rounds left: it compares the pointers, not the bytes. -/
def sameSrc : Nat → FilterPtr → FilterPtr → Bool
  | 0, _, _ => true
  | n + 1, szMatch, szTmpSrc => szTmpSrc = szMatch && sameSrc n szMatch.next szTmpSrc.next

/-- The outer loop from `pSrc` on. Nothing changes `i`, which stays 0; `none` if the element at `pSrc` is no stored filter. -/
def matchLoop (iNum : Nat) (szSrc : FilterPtr) : List (Option FilterSrc) → Option Bool
  | [] => if 0 < iNum then none else some false
  | pSrc :: rest =>
    if 0 < iNum then
      pSrc.bind fun src => if sameSrc src.iLen src.szSrc szSrc then some true else matchLoop iNum szSrc rest
    else some false

def isMatch (l : FilterList) (szSrc : FilterPtr) : Option Bool := matchLoop l.iNum szSrc l.vFilters

end FilterList

/-- The list of an index that `Init` has not set up is `none`. -/
structure Filter where
  iMaxLen : Nat
  vFilters : Nat → Option FilterList

namespace Filter

/-- The first loop of `Init`; `none` if a filter has more than 256 bytes. -/
def maxLen (iMaxLen : Nat) : List (List UInt8) → Option Nat
  | [] => some iMaxLen
  | strSrc :: vCfgFilter =>
    if iMaxLen < strSrc.length then if 256 < strSrc.length then none else maxLen strSrc.length vCfgFilter
    else maxLen iMaxLen vCfgFilter

/-- The filters from number `j` on that have at most `i` bytes are added. -/
def fill (i j : Nat) (l : FilterList) : List (List UInt8) → FilterList
  | [] => l
  | strSrc :: vCfgFilter =>
    fill i (j + 1) (if i < strSrc.length then l else l.addFilter (.filter j 0) strSrc.length) vCfgFilter

def init (vCfgFilter : List (List UInt8)) : Option Filter := do
  let iMaxLen ← maxLen 0 vCfgFilter
  if iMaxLen = 0 then return ⟨0, fun _ => none⟩
  return ⟨iMaxLen + 1, fun i =>
    if 1 ≤ i ∧ i < iMaxLen + 1 then some (fill i 0 ⟨0, 16, List.replicate 16 none⟩ vCfgFilter) else none⟩

def isMatch (flt : Filter) (szSrc : FilterPtr) (iLen : Nat) : Option Bool :=
  if flt.iMaxLen ≤ 1 then some true
  else
    let iLen := if flt.iMaxLen ≤ iLen then flt.iMaxLen - 1 else iLen
    if iLen = 0 then some false else (flt.vFilters iLen).bind fun l => l.isMatch szSrc

end Filter

end RedisProxy
