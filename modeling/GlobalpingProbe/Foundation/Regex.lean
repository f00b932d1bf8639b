import Mathlib.Computability.Language

/-! # Regular expressions with priorities and groups

A backtracking matcher lists the matches at the front of a text in the order in which it
tries them, and a search takes the first match at the first position that has one. Which
texts match is the language of the expression; the order decides between them.
-/
namespace Foundation

inductive Regex (α : Type) where
  | empty
  | chr (p : α → Bool)
  | seq (r q : Regex α)
  | alt (r q : Regex α)
  | star (greedy : Bool) (r : Regex α)
  | group (i : ℕ) (r : Regex α)

/-- The text taken, the texts of the groups in the order in which they closed, and the rest. -/
structure Match (α : Type) where
  text : List α
  caps : List (ℕ × List α)
  rest : List α
  deriving DecidableEq, Repr

namespace Match
variable {α : Type}

def stop (s : List α) : Match α := ⟨[], [], s⟩

def append (m n : Match α) : Match α := ⟨m.text ++ n.text, m.caps ++ n.caps, n.rest⟩

def get (m : Match α) (i : ℕ) : Option (List α) := m.caps.reverse.lookup i

/-- The text of a group that takes part in every match. -/
def group (m : Match α) (i : ℕ) : List α := (m.get i).getD []

end Match

namespace Regex
variable {α : Type}

/-- Iterations that take no text are not tried; `fuel` bounds the number of the others. -/
def iterate (step : List α → List (Match α)) (greedy : Bool) : ℕ → List α → List (Match α)
  | 0, s => [.stop s]
  | fuel + 1, s =>
    let more := ((step s).filter (!·.text.isEmpty)).flatMap
      (fun m => (iterate step greedy fuel m.rest).map m.append)
    if greedy then more ++ [.stop s] else .stop s :: more

/-- All matches at the front of a text, those that are tried first in front. -/
def exec : Regex α → List α → List (Match α)
  | empty, s => [.stop s]
  | chr _, [] => []
  | chr p, c :: s => if p c then [⟨[c], [], s⟩] else []
  | seq r q, s => (r.exec s).flatMap (fun m => (q.exec m.rest).map m.append)
  | alt r q, s => r.exec s ++ q.exec s
  | star greedy r, s => iterate r.exec greedy s.length s
  | group i r, s => (r.exec s).map (fun m => { m with caps := m.caps ++ [(i, m.text)] })

/-- The texts that an expression takes. -/
def lang : Regex α → Language α
  | empty => 1
  | chr p => {w | ∃ c, p c = true ∧ w = [c]}
  | seq r q => r.lang * q.lang
  | alt r q => r.lang + q.lang
  | star _ r => KStar.kstar r.lang
  | group _ r => r.lang

/-! ## What the matcher lists is what the language says -/

/-- A matcher for a language takes a front part of the text that the language has. -/
def Sound (step : List α → List (Match α)) (L : Language α) : Prop :=
  ∀ s, ∀ m ∈ step s, m.text ++ m.rest = s ∧ m.text ∈ L

def Complete (step : List α → List (Match α)) (L : Language α) : Prop :=
  ∀ w ∈ L, ∀ rest, ∃ m ∈ step (w ++ rest), m.text = w ∧ m.rest = rest

theorem mem_iterate_succ {step : List α → List (Match α)} {greedy : Bool} {fuel : ℕ}
    {s : List α} {m : Match α} : m ∈ iterate step greedy (fuel + 1) s ↔
      m = .stop s ∨ ∃ n ∈ step s, n.text ≠ [] ∧
        ∃ l ∈ iterate step greedy fuel n.rest, n.append l = m := by
  cases greedy with
  | false => simp [iterate, and_assoc]
  | true => simp [iterate, and_assoc, or_comm]

theorem iterate_sound {step : List α → List (Match α)} {L : Language α} (h : Sound step L)
    (greedy : Bool) (fuel : ℕ) : Sound (iterate step greedy fuel) (KStar.kstar L) := by
  induction fuel with
  | zero =>
    intro s m hm
    obtain rfl : m = .stop s := by simpa [iterate] using hm
    exact ⟨rfl, Language.nil_mem_kstar L⟩
  | succ fuel ih =>
    intro s m hm
    rcases mem_iterate_succ.mp hm with rfl | ⟨n, hn, -, l, hl, rfl⟩
    · exact ⟨rfl, Language.nil_mem_kstar L⟩
    · obtain ⟨hnrest, hntext⟩ := h s n hn
      obtain ⟨hlrest, hltext⟩ := ih n.rest l hl
      refine ⟨by simp [Match.append, hlrest, hnrest], ?_⟩
      rw [← Language.one_add_self_mul_kstar_eq_kstar]
      exact Or.inr (Language.append_mem_mul hntext hltext)

theorem iterate_complete {step : List α → List (Match α)} {L : Language α}
    (h : Complete step L) (greedy : Bool) {ws : List (List α)} {rest : List α} {fuel : ℕ}
    (hws : ∀ w ∈ ws, w ∈ L ∧ w ≠ []) (hfuel : (ws.flatten ++ rest).length ≤ fuel) :
    ∃ m ∈ iterate step greedy fuel (ws.flatten ++ rest), m.text = ws.flatten ∧ m.rest = rest := by
  induction ws generalizing fuel with
  | nil =>
    refine ⟨.stop rest, ?_, rfl, rfl⟩
    cases fuel with
    | zero => simp [iterate]
    | succ fuel => exact mem_iterate_succ.mpr (Or.inl rfl)
  | cons w ws ih =>
    obtain ⟨hw, hne⟩ := hws w (by simp)
    have hpos : 0 < w.length := List.length_pos_of_ne_nil hne
    cases fuel with
    | zero =>
      simp only [List.flatten_cons, List.length_append] at hfuel
      omega
    | succ fuel =>
      simp only [List.flatten_cons, List.append_assoc]
      obtain ⟨n, hn, hntext, hnrest⟩ := h w hw (ws.flatten ++ rest)
      have hleft : (ws.flatten ++ rest).length ≤ fuel := by
        simp only [List.flatten_cons, List.length_append] at hfuel ⊢
        omega
      obtain ⟨l, hl, hltext, hlrest⟩ := ih (fun v hv => hws v (by simp [hv])) hleft
      refine ⟨n.append l, mem_iterate_succ.mpr (Or.inr ⟨n, hn, ?_, l, ?_, rfl⟩), ?_, ?_⟩
      · rwa [hntext]
      · rwa [hnrest]
      · simp [Match.append, hntext, hltext]
      · simp [Match.append, hlrest]

theorem exec_sound (r : Regex α) : Sound r.exec r.lang := by
  induction r with
  | empty =>
    intro s m hm
    obtain rfl : m = .stop s := by simpa [exec] using hm
    exact ⟨rfl, rfl⟩
  | chr p =>
    intro s m hm
    cases s with
    | nil => simp [exec] at hm
    | cons c s =>
      obtain ⟨hc, rfl⟩ : p c = true ∧ m = ⟨[c], [], s⟩ := by simpa [exec] using hm
      exact ⟨rfl, c, hc, rfl⟩
  | seq r q ihr ihq =>
    intro s m hm
    obtain ⟨n, hn, l, hl, rfl⟩ : ∃ n ∈ r.exec s, ∃ l ∈ q.exec n.rest, n.append l = m := by
      simpa [exec] using hm
    obtain ⟨hnrest, hntext⟩ := ihr s n hn
    obtain ⟨hlrest, hltext⟩ := ihq n.rest l hl
    exact ⟨by simp [Match.append, hlrest, hnrest], Language.append_mem_mul hntext hltext⟩
  | alt r q ihr ihq =>
    intro s m hm
    rcases List.mem_append.mp hm with hm | hm
    · exact ⟨(ihr s m hm).1, Or.inl (ihr s m hm).2⟩
    · exact ⟨(ihq s m hm).1, Or.inr (ihq s m hm).2⟩
  | star greedy r ih => exact fun s => iterate_sound ih greedy s.length s
  | group i r ih =>
    intro s m hm
    obtain ⟨n, hn, rfl⟩ := List.mem_map.mp hm
    exact ih s n hn

theorem exec_complete (r : Regex α) : Complete r.exec r.lang := by
  induction r with
  | empty =>
    rintro w rfl rest
    exact ⟨.stop rest, by simp [exec], rfl, rfl⟩
  | chr p =>
    rintro w ⟨c, hc, rfl⟩ rest
    exact ⟨⟨[c], [], rest⟩, by simp [exec, hc], rfl, rfl⟩
  | seq r q ihr ihq =>
    intro w hw rest
    obtain ⟨u, hu, v, hv, rfl⟩ := Language.mem_mul.mp hw
    obtain ⟨n, hn, hntext, hnrest⟩ := ihr u hu (v ++ rest)
    obtain ⟨l, hl, hltext, hlrest⟩ := ihq v hv rest
    refine ⟨n.append l, ?_, by simp [Match.append, hntext, hltext], hlrest⟩
    rw [List.append_assoc]
    exact List.mem_flatMap.mpr ⟨n, hn, List.mem_map_of_mem (by rwa [hnrest])⟩
  | alt r q ihr ihq =>
    intro w hw rest
    rcases hw with hw | hw
    · obtain ⟨m, hm, h⟩ := ihr w hw rest
      exact ⟨m, List.mem_append_left _ hm, h⟩
    · obtain ⟨m, hm, h⟩ := ihq w hw rest
      exact ⟨m, List.mem_append_right _ hm, h⟩
  | star greedy r ih =>
    intro w hw rest
    obtain ⟨ws, rfl, hws⟩ := Language.mem_kstar_iff_exists_nonempty.mp hw
    exact iterate_complete ih greedy hws le_rfl
  | group i r ih =>
    intro w hw rest
    obtain ⟨m, hm, htext, hrest⟩ := ih w hw rest
    exact ⟨_, List.mem_map_of_mem hm, htext, hrest⟩

/-- The groups are parts of the text. -/
def Inner (m : Match α) : Prop := ∀ c ∈ m.caps, c.2 <:+: m.text

theorem Inner.append {m n : Match α} (hm : Inner m) (hn : Inner n) : Inner (m.append n) := by
  intro c hc
  rcases List.mem_append.mp hc with hc | hc
  · exact (hm c hc).trans (List.prefix_append _ _).isInfix
  · exact (hn c hc).trans (List.suffix_append _ _).isInfix

theorem iterate_inner {step : List α → List (Match α)} (h : ∀ s, ∀ m ∈ step s, Inner m)
    (greedy : Bool) (fuel : ℕ) : ∀ s, ∀ m ∈ iterate step greedy fuel s, Inner m := by
  induction fuel with
  | zero =>
    intro s m hm
    obtain rfl : m = .stop s := by simpa [iterate] using hm
    exact nofun
  | succ fuel ih =>
    intro s m hm
    rcases mem_iterate_succ.mp hm with rfl | ⟨n, hn, -, l, hl, rfl⟩
    · exact nofun
    · exact (h s n hn).append (ih n.rest l hl)

theorem exec_inner (r : Regex α) : ∀ s, ∀ m ∈ r.exec s, Inner m := by
  induction r with
  | empty =>
    intro s m hm
    obtain rfl : m = .stop s := by simpa [exec] using hm
    exact nofun
  | chr p =>
    intro s m hm
    cases s with
    | nil => simp [exec] at hm
    | cons c s =>
      obtain ⟨-, rfl⟩ : p c = true ∧ m = ⟨[c], [], s⟩ := by simpa [exec] using hm
      exact nofun
  | seq r q ihr ihq =>
    intro s m hm
    obtain ⟨n, hn, l, hl, rfl⟩ : ∃ n ∈ r.exec s, ∃ l ∈ q.exec n.rest, n.append l = m := by
      simpa [exec] using hm
    exact (ihr s n hn).append (ihq n.rest l hl)
  | alt r q ihr ihq =>
    intro s m hm
    rcases List.mem_append.mp hm with hm | hm
    · exact ihr s m hm
    · exact ihq s m hm
  | star greedy r ih => exact fun s => iterate_inner ih greedy s.length s
  | group i r ih =>
    intro s m hm c hc
    obtain ⟨n, hn, rfl⟩ := List.mem_map.mp hm
    rcases List.mem_append.mp hc with hc | hc
    · exact ih s n hn c hc
    · rw [List.mem_singleton.mp hc]

/-! ## Searches -/

/-- The text before the first match, with the match. -/
def find (r : Regex α) : List α → Option (List α × Match α)
  | [] => (r.exec []).head?.map (fun m => ([], m))
  | c :: s =>
    match (r.exec (c :: s)).head? with
    | some m => some ([], m)
    | none => (r.find s).map (fun f => (c :: f.1, f.2))

def captures (r : Regex α) (s : List α) : Option (Match α) := (r.find s).map (·.2)

def isPrefixMatch (r : Regex α) (s : List α) : Bool := !(r.exec s).isEmpty

/-- The first match is replaced by a text made from it. -/
def replace (r : Regex α) (f : Match α → List α) (s : List α) : List α :=
  match r.find s with
  | some (before, m) => before ++ f m ++ m.rest
  | none => s

/-- The matches one after the other, for an expression that takes at least one item. -/
def capturesIter (r : Regex α) (s : List α) : List (Match α) :=
  go s.length s
where
  go : ℕ → List α → List (Match α)
    | 0, _ => []
    | fuel + 1, s =>
      match r.captures s with
      | some m => m :: go fuel m.rest
      | none => []

theorem find_sound {r : Regex α} {s before : List α} {m : Match α}
    (h : r.find s = some (before, m)) : before ++ m.text ++ m.rest = s ∧ m.text ∈ r.lang := by
  induction s generalizing before with
  | nil =>
    obtain ⟨n, hn, heq⟩ := Option.map_eq_some_iff.mp h
    cases heq
    simpa using r.exec_sound [] m (List.mem_of_head? hn)
  | cons c s ih =>
    unfold find at h
    split at h
    · next n hn =>
      cases h
      simpa using r.exec_sound (c :: s) m (List.mem_of_head? hn)
    · obtain ⟨⟨b, n⟩, hf, heq⟩ := Option.map_eq_some_iff.mp h
      cases heq
      obtain ⟨hs, hlang⟩ := ih hf
      exact ⟨by simpa using hs, hlang⟩

/-- A text that the language has at some position is enough for a match. -/
theorem find_isSome {r : Regex α} {w : List α} (hw : w ∈ r.lang) (before rest : List α) :
    (r.find (before ++ w ++ rest)).isSome = true := by
  have hfront : ∀ rest, (r.exec (w ++ rest)).head?.isSome = true := by
    intro rest
    obtain ⟨m, hm, -⟩ := r.exec_complete w hw rest
    cases he : r.exec (w ++ rest) with
    | nil => simp [he] at hm
    | cons => rfl
  induction before with
  | nil =>
    have hsome := hfront rest
    simp only [List.nil_append]
    cases hs : w ++ rest with
    | nil => simpa [find, hs] using hsome
    | cons c s =>
      rw [hs] at hsome
      unfold find
      split
      · rfl
      · next hnone => simp [hnone] at hsome
  | cons c before ih =>
    simp only [List.cons_append, find]
    split
    · rfl
    · simpa using ih

theorem captures_isSome {r : Regex α} {w : List α} (hw : w ∈ r.lang) (before rest : List α) :
    (r.captures (before ++ w ++ rest)).isSome = true := by
  simpa [captures] using find_isSome hw before rest

theorem captures_sound {r : Regex α} {s : List α} {m : Match α} (h : r.captures s = some m) :
    ∃ before, before ++ m.text ++ m.rest = s ∧ m.text ∈ r.lang := by
  obtain ⟨⟨before, n⟩, hf, rfl⟩ := Option.map_eq_some_iff.mp h
  exact ⟨before, find_sound hf⟩

theorem find_mem {r : Regex α} {s before : List α} {m : Match α}
    (h : r.find s = some (before, m)) : ∃ t, m ∈ r.exec t := by
  induction s generalizing before with
  | nil =>
    obtain ⟨n, hn, heq⟩ := Option.map_eq_some_iff.mp h
    cases heq
    exact ⟨[], List.mem_of_head? hn⟩
  | cons c s ih =>
    unfold find at h
    split at h
    · next n hn =>
      cases h
      exact ⟨c :: s, List.mem_of_head? hn⟩
    · obtain ⟨⟨b, n⟩, hf, heq⟩ := Option.map_eq_some_iff.mp h
      cases heq
      exact ih hf

theorem group_infix {r : Regex α} {s : List α} {m : Match α} (h : r.captures s = some m) (i : ℕ) :
    m.group i <:+: s := by
  obtain ⟨⟨before, n⟩, hf, rfl⟩ := Option.map_eq_some_iff.mp h
  obtain ⟨t, hmem⟩ := find_mem hf
  have hs := (find_sound hf).1
  have htext : n.text <:+: s := ⟨before, n.rest, hs⟩
  unfold Match.group Match.get
  cases hl : n.caps.reverse.lookup i with
  | none => exact List.nil_infix
  | some w =>
    obtain ⟨front, back, hcaps, -⟩ := List.lookup_eq_some_iff.mp hl
    have hcap : (i, w) ∈ n.caps := List.mem_reverse.mp (by simp [hcaps])
    exact (r.exec_inner t n hmem (i, w) hcap).trans htext

/-! ## Derived expressions -/

def lit [DecidableEq α] : List α → Regex α
  | [] => empty
  | c :: s => seq (chr (· = c)) (lit s)

def concat : List (Regex α) → Regex α
  | [] => empty
  | r :: rs => seq r (concat rs)

def plus (greedy : Bool) (r : Regex α) : Regex α := seq r (star greedy r)

/-- `r?`. -/
def opt (r : Regex α) : Regex α := alt r empty

theorem mem_lang_concat_cons {r : Regex α} {rs : List (Regex α)} {w : List α} :
    w ∈ (concat (r :: rs)).lang ↔ ∃ u ∈ r.lang, ∃ v ∈ (concat rs).lang, u ++ v = w :=
  Language.mem_mul

theorem mem_lang_lit [DecidableEq α] (s : List α) : s ∈ (lit s).lang := by
  induction s with
  | nil => rfl
  | cons c s ih =>
    have hc : [c] ∈ (chr (fun d => decide (d = c))).lang := ⟨c, by simp, rfl⟩
    exact Language.append_mem_mul hc ih

theorem mem_lang_star_chr {greedy : Bool} {p : α → Bool} {w : List α}
    (h : ∀ c ∈ w, p c = true) : w ∈ (star greedy (chr p)).lang := by
  refine Language.mem_kstar.mpr ⟨w.map (fun c => [c]), by simp [← List.flatMap_def], ?_⟩
  intro y hy
  obtain ⟨c, hc, rfl⟩ := List.mem_map.mp hy
  exact ⟨c, h c hc, rfl⟩

theorem mem_lang_plus_chr {greedy : Bool} {p : α → Bool} {w : List α} (hne : w ≠ [])
    (h : ∀ c ∈ w, p c = true) : w ∈ (plus greedy (chr p)).lang := by
  cases w with
  | nil => exact absurd rfl hne
  | cons c w =>
    have hc : [c] ∈ (chr p).lang := ⟨c, h c (by simp), rfl⟩
    exact Language.append_mem_mul hc (mem_lang_star_chr (fun d hd => h d (by simp [hd])))

theorem eq_of_mem_lang_lit [DecidableEq α] {s w : List α} (h : w ∈ (lit s).lang) : w = s := by
  induction s generalizing w with
  | nil => exact h
  | cons c s ih =>
    obtain ⟨u, ⟨d, hd, rfl⟩, v, hv, rfl⟩ := Language.mem_mul.mp h
    rw [ih hv, of_decide_eq_true hd]
    rfl

theorem of_mem_lang_star_chr {greedy : Bool} {p : α → Bool} {w : List α}
    (h : w ∈ (star greedy (chr p)).lang) : ∀ c ∈ w, p c = true := by
  obtain ⟨ws, rfl, hws⟩ := Language.mem_kstar.mp h
  intro c hc
  obtain ⟨v, hv, hcv⟩ := List.mem_flatten.mp hc
  obtain ⟨d, hd, rfl⟩ := hws v hv
  rwa [List.mem_singleton.mp hcv]

theorem of_mem_lang_plus_chr {greedy : Bool} {p : α → Bool} {w : List α}
    (h : w ∈ (plus greedy (chr p)).lang) : w ≠ [] ∧ ∀ c ∈ w, p c = true := by
  obtain ⟨u, ⟨d, hd, rfl⟩, v, hv, rfl⟩ := Language.mem_mul.mp h
  refine ⟨by simp, fun c hc => ?_⟩
  rcases List.mem_append.mp hc with hc | hc
  · rwa [List.mem_singleton.mp hc]
  · exact of_mem_lang_star_chr hv c hc

end Regex
end Foundation
