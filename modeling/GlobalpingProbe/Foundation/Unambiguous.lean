import GlobalpingProbe.Foundation.FirstMatch

/-! # Matches without a choice

Where only one way to divide a text lets the rest of an expression match, the search cannot
find another one, whatever it tries first, and it passes over a text in which no match starts.
A search may also be bound to start where a word starts or ends.
-/
namespace Foundation

namespace Match
variable {α : Type}

theorem append_assoc (l m n : Match α) : (l.append m).append n = l.append (m.append n) := by
  simp [append]

end Match

namespace Regex
variable {α : Type} {r q : Regex α} {p : α → Bool} {s t u v w : List α} {i : ℕ}

/-- No part of the expression captures. -/
def Plain : Regex α → Prop
  | empty | chr _ => True
  | seq r q | alt r q => r.Plain ∧ q.Plain
  | star _ r => r.Plain
  | group _ _ => False

theorem iterate_plain {step : List α → List (Match α)} (h : ∀ s, ∀ m ∈ step s, m.caps = [])
    (greedy : Bool) (fuel : ℕ) : ∀ s, ∀ m ∈ iterate step greedy fuel s, m.caps = [] := by
  induction fuel with
  | zero =>
    intro s m hm
    obtain rfl : m = .stop s := by simpa [iterate] using hm
    rfl
  | succ fuel ih =>
    intro s m hm
    rcases mem_iterate_succ.mp hm with rfl | ⟨n, hn, -, l, hl, rfl⟩
    · rfl
    · simp [Match.append, h s n hn, ih n.rest l hl]

theorem caps_of_plain {r : Regex α} (hr : r.Plain) : ∀ s, ∀ m ∈ r.exec s, m.caps = [] := by
  induction r with
  | empty =>
    intro s m hm
    obtain rfl : m = .stop s := by simpa [exec] using hm
    rfl
  | chr p =>
    intro s m hm
    cases s with
    | nil => simp [exec] at hm
    | cons c s =>
      obtain ⟨-, rfl⟩ : p c = true ∧ m = ⟨[c], [], s⟩ := by simpa [exec] using hm
      rfl
  | seq r q ihr ihq =>
    intro s m hm
    obtain ⟨n, hn, l, hl, rfl⟩ : ∃ n ∈ r.exec s, ∃ l ∈ q.exec n.rest, n.append l = m := by
      simpa [exec] using hm
    simp [Match.append, ihr hr.1 s n hn, ihq hr.2 n.rest l hl]
  | alt r q ihr ihq =>
    intro s m hm
    rcases List.mem_append.mp hm with hm | hm
    · exact ihr hr.1 s m hm
    · exact ihq hr.2 s m hm
  | star greedy r ih => exact fun s => iterate_plain (ih hr) greedy s.length s
  | group i r => exact hr.elim

/-- Every item that the expression takes has the property. -/
def Over (P : α → Prop) : Regex α → Prop
  | empty => True
  | chr p => ∀ c, p c = true → P c
  | seq r q | alt r q => r.Over P ∧ q.Over P
  | star _ r | group _ r => r.Over P

theorem of_mem_lang {P : α → Prop} {r : Regex α} (hr : r.Over P) :
    ∀ v ∈ r.lang, ∀ c ∈ v, P c := by
  induction r with
  | empty =>
    rintro v rfl c hc
    cases hc
  | chr p =>
    rintro v ⟨d, hd, rfl⟩ c hc
    rw [List.mem_singleton.mp hc]
    exact hr d hd
  | seq r q ihr ihq =>
    intro v hv c hc
    obtain ⟨x, hx, y, hy, rfl⟩ := Language.mem_mul.mp hv
    rcases List.mem_append.mp hc with hc | hc
    · exact ihr hr.1 x hx c hc
    · exact ihq hr.2 y hy c hc
  | alt r q ihr ihq =>
    intro v hv
    rcases hv with hv | hv
    · exact ihr hr.1 v hv
    · exact ihq hr.2 v hv
  | star greedy r ih =>
    intro v hv c hc
    obtain ⟨ws, rfl, hws⟩ := Language.mem_kstar.mp hv
    obtain ⟨x, hx, hcx⟩ := List.mem_flatten.mp hc
    exact ih hr x (hws x hx) c hcx
  | group i r ih => exact ih hr

/-! ## One way to divide the text -/

theorem exec_seq_assoc (r q l : Regex α) (s : List α) :
    (seq (seq r q) l).exec s = (seq r (seq q l)).exec s := by
  have happ : ∀ m n : Match α, (m.append n).append = m.append ∘ n.append := by
    intro m n
    funext l
    exact Match.append_assoc m n l
  have hrest : ∀ m n : Match α, (m.append n).rest = n.rest := fun _ _ => rfl
  simp only [exec, List.flatMap_assoc, List.flatMap_map, List.map_flatMap, List.map_map, happ, hrest]

/-- Where `t` is the only rest that `q` matches, `r` takes all before it. -/
theorem head?_exec_seq_of_unique (hw : w ∈ r.lang)
    (h : ∀ v u, v ++ u = w ++ t → v ∈ r.lang → q.exec u ≠ [] → u = t) :
    ∃ m ∈ r.exec (w ++ t), m.text = w ∧ m.rest = t ∧
      ((seq r q).exec (w ++ t)).head? = (q.exec t).head?.map m.append := by
  have hrest : ∀ m ∈ r.exec (w ++ t), q.exec m.rest ≠ [] → m.rest = t := by
    intro m hm hq
    obtain ⟨htext, hlang⟩ := r.exec_sound (w ++ t) m hm
    exact h m.text m.rest htext hlang hq
  obtain ⟨k, hk, hktext, hkrest⟩ := r.exec_complete w hw t
  rw [head?_exec_seq]
  cases hq : (q.exec t).head? with
  | none =>
    refine ⟨k, hk, hktext, hkrest, ?_⟩
    rw [Option.map_none, List.findSome?_eq_none_iff]
    intro m hm
    by_cases hne : q.exec m.rest = []
    · simp [hne]
    · rw [hrest m hm hne, hq, Option.map_none]
  | some n =>
    have hsome : ((r.exec (w ++ t)).findSome?
        (fun m => (q.exec m.rest).head?.map m.append)).isSome = true := by
      rw [List.findSome?_isSome_iff]
      exact ⟨k, hk, by simp [hkrest, hq]⟩
    obtain ⟨l, hl⟩ := Option.isSome_iff_exists.mp hsome
    obtain ⟨before, m, after, hlist, hm, -⟩ := List.findSome?_eq_some_iff.mp hl
    have hmem : m ∈ r.exec (w ++ t) := by simp [hlist]
    obtain ⟨l', hl', -⟩ := Option.map_eq_some_iff.mp hm
    have hmrest : m.rest = t := by
      apply hrest m hmem
      intro he
      rw [he] at hl'
      cases hl'
    have htext : m.text ++ t = w ++ t := by
      rw [← hmrest]
      exact (r.exec_sound (w ++ t) m hmem).1.trans (by rw [hmrest])
    refine ⟨m, hmem, List.append_cancel_right htext, hmrest, ?_⟩
    rw [hl, ← hm, hmrest, hq]

theorem head?_exec_seq_first {m n : Match α} (hr : (r.exec s).head? = some m)
    (hq : (q.exec m.rest).head? = some n) : ((seq r q).exec s).head? = some (m.append n) := by
  obtain ⟨ms, hms⟩ := List.head?_eq_some_iff.mp hr
  rw [head?_exec_seq, hms, List.findSome?_cons, hq]
  rfl

/-- The match, where `r` takes the front part and `q` goes on. -/
theorem head?_exec_group (hr : r.Plain) (hw : w ∈ r.lang)
    (h : ∀ v u, v ++ u = w ++ t → v ∈ r.lang → q.exec u ≠ [] → u = t) :
    ((seq (group i r) q).exec (w ++ t)).head? =
      (q.exec t).head?.map (Match.append ⟨w, [(i, w)], t⟩) := by
  obtain ⟨m, hm, rfl, rfl, hhead⟩ := head?_exec_seq_of_unique (r := group i r) hw h
  obtain ⟨n, hn, rfl⟩ := List.mem_map.mp hm
  have hcaps := caps_of_plain hr _ n hn
  rw [hhead, hcaps]
  rfl

/-- Where `r` never takes the item behind and `q` starts with no item of the front part. -/
theorem unique_of_head (hr : ∀ v ∈ r.lang, ∀ c ∈ t.head?, c ∉ v)
    (hq : ∀ u, q.exec u ≠ [] → ∃ c u', u = c :: u' ∧ c ∉ w) :
    ∀ v u, v ++ u = w ++ t → v ∈ r.lang → q.exec u ≠ [] → u = t := by
  intro v u heq hv hu
  obtain ⟨c, u', rfl, hc⟩ := hq u hu
  rcases List.append_eq_append_iff.mp heq with ⟨x, rfl, hx⟩ | ⟨x, rfl, hx⟩
  · cases x with
    | nil => exact hx
    | cons d x =>
      obtain ⟨rfl, -⟩ := List.cons.inj hx
      exact absurd (by simp) hc
  · cases x with
    | nil => exact hx.symm
    | cons d x =>
      have hd : d ∈ t.head? := by rw [hx]; exact rfl
      exact absurd (by simp) (hr _ hv d hd)

/-! ## Passing over a text -/

/-- No match starts in the front part. -/
def Skips (r : Regex α) : List α → List α → Prop
  | [], _ => True
  | c :: w, s => r.exec (c :: (w ++ s)) = [] ∧ r.Skips w s

theorem skips_append {w' : List α} :
    r.Skips (w ++ w') s ↔ r.Skips w (w' ++ s) ∧ r.Skips w' s := by
  induction w with
  | nil => exact ⟨fun h => ⟨trivial, h⟩, fun h => h.2⟩
  | cons c w ih => rw [List.cons_append, Skips, Skips, ih, List.append_assoc, and_assoc]

theorem find_of_skips (h : r.Skips w s) :
    r.find (w ++ s) = (r.find s).map (fun f => (w ++ f.1, f.2)) := by
  induction w with
  | nil => simp
  | cons c w ih =>
    rw [List.cons_append, find, h.1, ih h.2, List.head?_nil, Option.map_map]
    rfl

theorem find_eq_none (h : r.Skips s []) (hnil : r.exec [] = []) : r.find s = none := by
  have hend : r.find [] = none := by rw [find, hnil, List.head?_nil, Option.map_none]
  have hskip := find_of_skips h
  rwa [List.append_nil, hend, Option.map_none] at hskip

theorem find_of_head? {m : Match α} (h : (r.exec s).head? = some m) : r.find s = some ([], m) := by
  cases s with
  | nil => rw [find, h, Option.map_some]
  | cons c s => rw [find, h]

/-! ## What the first match captures -/

/-- There is a match, and the one that is tried first has captured these groups. -/
def Captures (r : Regex α) (s : List α) (caps : List (ℕ × List α)) : Prop :=
  ∃ m, (r.exec s).head? = some m ∧ m.caps = caps

variable {caps : List (ℕ × List α)}

theorem captures_empty (s : List α) : Captures empty s [] := ⟨.stop s, rfl, rfl⟩

/-- Where the rest matches after the first match of `r`, nothing else is tried. -/
theorem captures_first {m : Match α} (hr : (r.exec s).head? = some m)
    (hq : Captures q m.rest caps) : Captures (seq r q) s (m.caps ++ caps) := by
  obtain ⟨n, hn, rfl⟩ := hq
  exact ⟨m.append n, head?_exec_seq_first hr hn, rfl⟩

theorem captures_lit [DecidableEq α] (hq : Captures q s caps) :
    Captures (seq (lit w) q) (w ++ s) caps := by
  have hfirst : ((lit w).exec (w ++ s)).head? = some ⟨w, [], s⟩ := by simp [exec_lit]
  exact captures_first hfirst hq

theorem captures_chr {c : α} (hc : p c = true) (hq : Captures q s caps) :
    Captures (seq (chr p) q) (c :: s) caps := by
  have hfirst : ((chr p).exec (c :: s)).head? = some ⟨[c], [], s⟩ := by simp [exec, hc]
  exact captures_first hfirst hq

theorem captures_group {m : Match α} (hr : (r.exec s).head? = some m) (hm : m.caps = [])
    (hq : Captures q m.rest caps) : Captures (seq (group i r) q) s ((i, m.text) :: caps) := by
  have hfirst : ((group i r).exec s).head? = some { m with caps := [(i, m.text)] } := by
    simp [exec, hr, hm]
  exact captures_first hfirst hq

/-- Where only one way to divide the text lets the rest match. -/
theorem captures_unique (hw : w ∈ r.lang)
    (h : ∀ v u, v ++ u = w ++ t → v ∈ r.lang → q.exec u ≠ [] → u = t)
    (hq : Captures q t caps) :
    ∃ m ∈ r.exec (w ++ t), m.text = w ∧ Captures (seq r q) (w ++ t) (m.caps ++ caps) := by
  obtain ⟨m, hm, htext, -, hhead⟩ := head?_exec_seq_of_unique hw h
  obtain ⟨n, hn, rfl⟩ := hq
  refine ⟨m, hm, htext, m.append n, ?_, rfl⟩
  rw [hhead, hn, Option.map_some]

theorem captures_plain (hr : r.Plain) (hw : w ∈ r.lang)
    (h : ∀ v u, v ++ u = w ++ t → v ∈ r.lang → q.exec u ≠ [] → u = t)
    (hq : Captures q t caps) : Captures (seq r q) (w ++ t) caps := by
  obtain ⟨m, hm, -, hcaps⟩ := captures_unique hw h hq
  rwa [caps_of_plain hr _ m hm] at hcaps

theorem captures_group_unique (hr : r.Plain) (hw : w ∈ r.lang)
    (h : ∀ v u, v ++ u = w ++ t → v ∈ r.lang → q.exec u ≠ [] → u = t)
    (hq : Captures q t caps) : Captures (seq (group i r) q) (w ++ t) ((i, w) :: caps) := by
  obtain ⟨m, hm, rfl, hcaps⟩ := captures_unique (r := group i r) hw h hq
  obtain ⟨n, hn, rfl⟩ := List.mem_map.mp hm
  rwa [caps_of_plain hr _ n hn] at hcaps

theorem captures_assoc {l : Regex α} (h : Captures (seq (seq r q) l) s caps) :
    Captures (seq r (seq q l)) s caps := by
  obtain ⟨m, hm, rfl⟩ := h
  exact ⟨m, by rwa [← exec_seq_assoc], rfl⟩

/-! ## What a match starts with -/

/-- What an expression matches has a text of the language in front. -/
theorem of_exec_seq_ne_nil (h : (seq r q).exec s ≠ []) :
    ∃ v u, v ++ u = s ∧ v ∈ r.lang ∧ q.exec u ≠ [] := by
  obtain ⟨m, hm⟩ := List.exists_mem_of_ne_nil _ h
  obtain ⟨n, hn, l, hl, -⟩ : ∃ n ∈ r.exec s, ∃ l ∈ q.exec n.rest, n.append l = m := by
    simpa [exec] using hm
  obtain ⟨htext, hlang⟩ := r.exec_sound s n hn
  exact ⟨n.text, n.rest, htext, hlang, List.ne_nil_of_mem hl⟩

theorem of_exec_lit_ne_nil [DecidableEq α] (h : (seq (lit w) q).exec s ≠ []) :
    ∃ u, s = w ++ u ∧ q.exec u ≠ [] := by
  obtain ⟨v, u, rfl, hv, hq⟩ := of_exec_seq_ne_nil h
  rw [eq_of_mem_lang_lit hv]
  exact ⟨u, rfl, hq⟩

theorem of_exec_chr_ne_nil (h : (seq (chr p) q).exec s ≠ []) :
    ∃ c u, s = c :: u ∧ p c = true ∧ q.exec u ≠ [] := by
  obtain ⟨v, u, rfl, ⟨c, hc, rfl⟩, hq⟩ := of_exec_seq_ne_nil h
  exact ⟨c, u, rfl, hc, hq⟩

theorem starts_seq {P : α → Prop} (hr : ∀ v ∈ r.lang, v ≠ [] ∧ ∀ c ∈ v, P c) (u : List α)
    (h : (seq r q).exec u ≠ []) : ∃ d u', u = d :: u' ∧ P d := by
  obtain ⟨v, u', rfl, hv, -⟩ := of_exec_seq_ne_nil h
  obtain ⟨hne, hall⟩ := hr v hv
  obtain ⟨c, v', rfl⟩ := List.exists_cons_of_ne_nil hne
  exact ⟨c, v' ++ u', rfl, hall c List.mem_cons_self⟩

theorem starts_lit [DecidableEq α] {P : α → Prop} {c : α} (hc : P c) (u : List α)
    (h : (seq (lit (c :: w)) q).exec u ≠ []) : ∃ d u', u = d :: u' ∧ P d := by
  obtain ⟨u', rfl, -⟩ := of_exec_lit_ne_nil h
  exact ⟨c, w ++ u', rfl, hc⟩

theorem starts_chr {P : α → Prop} (hp : ∀ c, p c = true → P c) (u : List α)
    (h : (seq (chr p) q).exec u ≠ []) : ∃ d u', u = d :: u' ∧ P d := by
  obtain ⟨c, u', rfl, hc, -⟩ := of_exec_chr_ne_nil h
  exact ⟨c, u', rfl, hp c hc⟩

theorem exec_eq_nil_of_start {P : α → Prop}
    (h : ∀ u, r.exec u ≠ [] → ∃ c u', u = c :: u' ∧ P c) (hs : ∀ c ∈ s.head?, ¬ P c) :
    r.exec s = [] := by
  by_contra hne
  obtain ⟨c, u', rfl, hc⟩ := h s hne
  exact hs c rfl hc

/-- Items that the texts of `r` do not have divide the text, where `q` starts with one. -/
theorem unique_of_separator (hr : ∀ v ∈ r.lang, ∀ c ∈ v, p c = false) (hw : w ∈ r.lang)
    (hq : ∀ u, q.exec u ≠ [] → ∃ c u', u = c :: u' ∧ p c = true)
    (ht : ∃ c t', t = c :: t' ∧ p c = true) :
    ∀ v u, v ++ u = w ++ t → v ∈ r.lang → q.exec u ≠ [] → u = t := by
  intro v u heq hv hu
  obtain ⟨c, u', rfl, hc⟩ := hq u hu
  obtain ⟨d, t', rfl, hd⟩ := ht
  have htake : ∀ x y : List α, ∀ e, (∀ c ∈ x, p c = false) → p e = true →
      (x ++ e :: y).dropWhile (!p ·) = e :: y := by
    intro x y e hx he
    rw [List.dropWhile_append_of_pos (fun c hc => by simp [hx c hc]),
      List.dropWhile_cons_of_neg (by simp [he])]
  rw [← htake v u' c (hr v hv) hc, heq, htake w t' d (hr w hw) hd]

/-! ## Greedy repetition -/

/-- The longest text comes first. -/
theorem head?_exec_greedy (s : List α) : ((star true (chr p)).exec s).head? =
    some ⟨s.takeWhile p, [], s.dropWhile p⟩ := by
  induction s with
  | nil => rfl
  | cons c s ih =>
    have hcons : (star true (chr p)).exec (c :: s) =
        iterate (chr p).exec true (s.length + 1) (c :: s) := rfl
    have hiter : iterate (chr p).exec true s.length s = (star true (chr p)).exec s := rfl
    rw [hcons, iterate]
    by_cases hc : p c = true
    · have hstep : (chr p).exec (c :: s) = [⟨[c], [], s⟩] := by simp [exec, hc]
      simp only [hstep, List.filter_cons, List.isEmpty_cons, Bool.not_false, if_true,
        List.filter_nil, List.flatMap_cons, List.flatMap_nil, List.append_nil, hiter]
      simp [List.head?_append, ih, hc, Match.append]
    · simp [exec, hc, Match.stop]

/-- A run that ends here is taken whole. -/
theorem head?_exec_run {c : α} (hw : ∀ d ∈ w, p d = true) (hc : p c = false) :
    ((star true (chr p)).exec (w ++ c :: s)).head? = some ⟨w, [], c :: s⟩ := by
  have hneg : ¬ p c = true := by simp [hc]
  rw [head?_exec_greedy, List.takeWhile_append_of_pos hw, List.dropWhile_append_of_pos hw,
    List.takeWhile_cons_of_neg hneg, List.dropWhile_cons_of_neg hneg, List.append_nil]

theorem head?_exec_run_plus {c : α} (hne : w ≠ []) (hw : ∀ d ∈ w, p d = true) (hc : p c = false) :
    ((plus true (chr p)).exec (w ++ c :: s)).head? = some ⟨w, [], c :: s⟩ := by
  cases w with
  | nil => exact absurd rfl hne
  | cons d w =>
    have hd : p d = true := hw d List.mem_cons_self
    have hchr : ((chr p).exec (d :: w ++ c :: s)).head? = some ⟨[d], [], w ++ c :: s⟩ := by
      simp [exec, hd]
    have hrun := head?_exec_run (s := s) (fun e he => hw e (List.mem_cons_of_mem d he)) hc
    exact head?_exec_seq_first hchr hrun

/-! ## Word boundaries -/

/-- `\b` between the item before, if there is one, and what follows. -/
def isBoundary (word : α → Bool) (before : Option α) (s : List α) : Bool :=
  before.any word != s.head?.any word

/-- The search for an expression with `\b` in front, behind the item before. -/
def capturesAtBoundary (word : α → Bool) (r : Regex α) : Option α → List α → Option (Match α)
  | before, [] => if isBoundary word before [] then (r.exec []).head? else none
  | before, c :: s =>
    if isBoundary word before (c :: s) then
      (r.exec (c :: s)).head?.or (capturesAtBoundary word r (some c) s)
    else capturesAtBoundary word r (some c) s

variable {word : α → Bool} {before : Option α}

/-- Positions without a match are passed over. -/
theorem capturesAtBoundary_append (h : ∀ v c u, w = v ++ c :: u → r.exec (c :: u ++ s) = []) :
    capturesAtBoundary word r before (w ++ s) =
      capturesAtBoundary word r (w.getLast?.or before) s := by
  induction w generalizing before with
  | nil => rfl
  | cons c w ih =>
    have hhere : r.exec (c :: w ++ s) = [] := h [] c w rfl
    have hlater : capturesAtBoundary word r (some c) (w ++ s) =
        capturesAtBoundary word r (w.getLast?.or (some c)) s := by
      apply ih
      intro v d u hw
      exact h (c :: v) d u (by simp [hw])
    have hlast : ((c :: w).getLast?.or before) = (w.getLast?.or (some c)) := by
      cases w <;> simp [List.getLast?_cons]
    rw [List.cons_append] at hhere ⊢
    rw [capturesAtBoundary, hhere, hlater, hlast]
    simp

theorem capturesAtBoundary_eq (hb : isBoundary word before s = true) (h : Captures r s caps) :
    ∃ m, capturesAtBoundary word r before s = some m ∧ m.caps = caps := by
  obtain ⟨m, hm, rfl⟩ := h
  refine ⟨m, ?_, rfl⟩
  cases s with
  | nil => rw [capturesAtBoundary, if_pos hb, hm]
  | cons c s => rw [capturesAtBoundary, if_pos hb, hm, Option.some_or]

end Regex
end Foundation
