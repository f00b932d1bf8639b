import Mathlib.Data.List.TakeWhile
import Mathlib.Data.Option.Basic

/-! # The parts of a URI

The generic grammar: a scheme up to the first `://`, an authority up to the first slash, question
mark or number sign, and in the authority what stands before an at sign, a host, which may be in
brackets, and a port behind a colon.
-/
namespace Foundation

structure Uri where
  scheme : List Char
  userInfo : Option (List Char)
  host : List Char
  port : Option (List Char)
  rest : List Char
  deriving DecidableEq, Repr

namespace Uri

def isAuthorityEnd (c : Char) : Bool := c = '/' || c = '?' || c = '#'

/-- The text in front of the first `://` and the text behind it. -/
def splitScheme : List Char → Option (List Char × List Char)
  | [] => none
  | c :: s =>
    if "://".toList.isPrefixOf (c :: s) then some ([], s.drop 2)
    else (splitScheme s).map (fun p => (c :: p.1, p.2))

def splitUserInfo (authority : List Char) : Option (List Char) × List Char :=
  match authority.dropWhile (· ≠ '@') with
  | [] => (none, authority)
  | _ :: hostPort => (some (authority.takeWhile (· ≠ '@')), hostPort)

def splitHost : List Char → List Char × List Char
  | '[' :: s =>
    ('[' :: (s.takeWhile (· ≠ ']') ++ (s.dropWhile (· ≠ ']')).take 1), (s.dropWhile (· ≠ ']')).drop 1)
  | s => (s.takeWhile (· ≠ ':'), s.dropWhile (· ≠ ':'))

def portOf : List Char → Option (List Char)
  | ':' :: port => some port
  | _ => none

def parse (url : List Char) : Option Uri :=
  (splitScheme url).map (fun p =>
    let authority := p.2.takeWhile (!isAuthorityEnd ·)
    let (userInfo, hostPort) := splitUserInfo authority
    { scheme := p.1
      userInfo
      host := (splitHost hostPort).1
      port := portOf (splitHost hostPort).2
      rest := p.2.dropWhile (!isAuthorityEnd ·) })

section Pieces
variable {scheme host port rest authority : List Char}

theorem splitScheme_append (h : ':' ∉ scheme) (rest : List Char) :
    splitScheme (scheme ++ "://".toList ++ rest) = some (scheme, rest) := by
  induction scheme with
  | nil => rfl
  | cons c scheme ih =>
    obtain ⟨hc, hscheme⟩ := not_or.mp (mt List.mem_cons.mpr h)
    have hno : "://".toList.isPrefixOf (c :: (scheme ++ "://".toList ++ rest)) = false := by
      have hne : (':' == c) = false := beq_eq_false_iff_ne.mpr hc
      exact Bool.and_eq_false_iff.mpr (.inl hne)
    rw [List.cons_append, List.cons_append, splitScheme, hno, if_neg Bool.false_ne_true,
      ih hscheme]
    rfl

theorem splitUserInfo_of_notMem (h : '@' ∉ authority) : splitUserInfo authority = (none, authority) := by
  have hnone : authority.dropWhile (· ≠ '@') = [] := by
    rw [List.dropWhile_eq_nil_iff]
    intro c hc
    exact decide_eq_true (fun heq => h (heq ▸ hc))
  rw [splitUserInfo, hnone]

theorem splitHost_brackets (h : ']' ∉ host) (port : List Char) :
    splitHost ('[' :: (host ++ ']' :: port)) = ('[' :: (host ++ [']']), port) := by
  have hall : ∀ c ∈ host, decide (c ≠ ']') = true := fun c hc =>
    decide_eq_true (fun heq => h (heq ▸ hc))
  simp only [splitHost]
  rw [List.takeWhile_append_of_pos hall, List.dropWhile_append_of_pos hall,
    List.takeWhile_cons_of_neg (by simp), List.dropWhile_cons_of_neg (by simp), List.append_nil]
  rfl

theorem splitHost_colon (h : ':' ∉ host) (hbracket : '[' ∉ host) (port : List Char) :
    splitHost (host ++ ':' :: port) = (host, ':' :: port) := by
  have hall : ∀ c ∈ host, decide (c ≠ ':') = true := fun c hc =>
    decide_eq_true (fun heq => h (heq ▸ hc))
  have hplain : splitHost (host ++ ':' :: port) = ((host ++ ':' :: port).takeWhile (· ≠ ':'),
      (host ++ ':' :: port).dropWhile (· ≠ ':')) := by
    cases host with
    | nil => rfl
    | cons c host =>
      have hc : c ≠ '[' := fun heq => hbracket (heq ▸ List.mem_cons_self)
      unfold splitHost
      split
      · next heq => exact absurd (List.cons.inj heq).1 hc
      · rfl
  rw [hplain, List.takeWhile_append_of_pos hall, List.dropWhile_append_of_pos hall,
    List.takeWhile_cons_of_neg (by simp), List.dropWhile_cons_of_neg (by simp), List.append_nil]

/-- An authority without user info, put together with what is around it. -/
theorem parse_append (hscheme : ':' ∉ scheme) (huser : '@' ∉ authority)
    (hauthority : ∀ c ∈ authority, isAuthorityEnd c = false)
    (hrest : ∀ c ∈ rest.head?, isAuthorityEnd c = true) :
    parse (scheme ++ "://".toList ++ (authority ++ rest)) =
      some ⟨scheme, none, (splitHost authority).1, portOf (splitHost authority).2, rest⟩ := by
  have hall : ∀ c ∈ authority, (!isAuthorityEnd c) = true := fun c hc => by
    rw [hauthority c hc]
    rfl
  have hends : rest.takeWhile (!isAuthorityEnd ·) = [] ∧ rest.dropWhile (!isAuthorityEnd ·) = rest := by
    cases rest with
    | nil => exact ⟨rfl, rfl⟩
    | cons c rest =>
      have hc : ¬ (!isAuthorityEnd c) = true := by simp [hrest c rfl]
      exact ⟨List.takeWhile_cons_of_neg hc, List.dropWhile_cons_of_neg hc⟩
  rw [parse, splitScheme_append hscheme, Option.map_some]
  simp only [List.takeWhile_append_of_pos hall, List.dropWhile_append_of_pos hall, hends,
    List.append_nil, splitUserInfo_of_notMem huser]

end Pieces

end Uri
end Foundation
