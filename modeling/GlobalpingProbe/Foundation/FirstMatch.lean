import GlobalpingProbe.Foundation.Regex
import GlobalpingProbe.Foundation.Search

/-! # Which match is found

A search finds the match that is tried first at the first position that has one. For a text
between two delimiters, `.*?o(.*?)c`, this is the text from the first `o` to the next `c`.
-/
namespace Foundation
namespace Regex
variable {α β : Type}

theorem captures_eq (r : Regex α) (s : List α) :
    r.captures s = s.tails.findSome? (fun t => (r.exec t).head?) := by
  induction s with
  | nil => simp [captures, find]
  | cons c s ih =>
    rw [List.tails_cons, List.findSome?_cons, ← ih, captures, find]
    cases (r.exec (c :: s)).head? with
    | some m => rfl
    | none => simp [captures, Function.comp_def]

theorem head?_exec_seq (r q : Regex α) (s : List α) : ((seq r q).exec s).head? =
    (r.exec s).findSome? (fun m => (q.exec m.rest).head?.map m.append) := by
  simp [exec, List.head?_flatMap]

theorem exec_lit [DecidableEq α] (w s : List α) :
    (lit w).exec s = if w <+: s then [⟨w, [], s.drop w.length⟩] else [] := by
  induction w generalizing s with
  | nil => simp [lit, exec, Match.stop]
  | cons c w ih =>
    cases s with
    | nil => simp [lit, exec]
    | cons d s =>
      by_cases hc : d = c
      · subst hc
        simp only [lit, exec, decide_true, if_true, List.flatMap_cons, ih, List.flatMap_nil,
          List.append_nil, List.prefix_cons_inj]
        split_ifs <;> simp [Match.append]
      · have hno : ¬ c :: w <+: d :: s := fun h => hc (List.cons_prefix_cons.mp h).1.symm
        simp [lit, exec, hc, hno]

theorem exec_seq_empty (r : Regex α) (s : List α) : (seq r empty).exec s = r.exec s := by
  have hstop : ∀ m : Match α, m.append (.stop m.rest) = m := by simp [Match.append, Match.stop]
  simp [exec, hstop]

/-- Behind a literal text, the first follower of it with a match decides. -/
theorem captures_lit_seq [DecidableEq α] (c : α) (w : List α) (r : Regex α) (i : ℕ) (s : List α) :
    ((seq (lit (c :: w)) r).captures s).map (·.group i) =
      (followers (c :: w) s).findSome? (fun t => ((r.exec t).head?).map (·.group i)) := by
  induction s with
  | nil => rfl
  | cons d s ih =>
    rw [captures_eq, List.tails_cons, List.findSome?_cons, ← captures_eq, head?_exec_seq, exec_lit]
    by_cases h : c :: w <+: d :: s
    · obtain ⟨t, ht⟩ := h
      have hprefix : c :: w <+: d :: s := ⟨t, ht⟩
      rw [if_pos hprefix, followers_cons_append ht.symm, List.findSome?_cons, ← ht,
        List.drop_left, List.findSome?_cons]
      cases (r.exec t).head? with
      | some m => simp [Match.append, Match.group, Match.get]
      | none => simpa using ih
    · rw [if_neg h, followers_cons_of_not h]
      simpa using ih

/-! ## Lazy repetition -/

variable {p : α → Bool}

/-- The shortest text comes first. -/
theorem exec_lazy (s : List α) : (star false (chr p)).exec s =
    (s.takeWhile p).inits.map (fun u => ⟨u, [], s.drop u.length⟩) := by
  induction s with
  | nil => simp [exec, iterate, Match.stop]
  | cons c s ih =>
    have hiter : iterate (chr p).exec false s.length s = (star false (chr p)).exec s := rfl
    have hcons : (star false (chr p)).exec (c :: s) =
        iterate (chr p).exec false (s.length + 1) (c :: s) := rfl
    rw [hcons, iterate]
    by_cases hc : p c = true
    · have hstep : (chr p).exec (c :: s) = [⟨[c], [], s⟩] := by simp [exec, hc]
      simp only [hstep, List.filter_cons, List.isEmpty_cons, Bool.not_false, if_true,
        List.filter_nil, List.flatMap_cons, List.flatMap_nil, List.append_nil, hiter, ih]
      simp [hc, Match.stop, Match.append, Function.comp_def]
    · simp [exec, hc, Match.stop]

/-- Of the prefixes of a text that has `u` in front, the first with a value is `u`. -/
theorem findSome?_inits {f : List α → Option β} {u v : List α} {b : β} (hu : ∀ c ∈ u, p c = true)
    (hf : ∀ w c later, u = w ++ c :: later → f w = none) (hb : f u = some b) :
    ((u ++ v).takeWhile p).inits.findSome? f = some b := by
  induction u generalizing f with
  | nil =>
    rw [List.nil_append]
    cases v.takeWhile p <;> simp [hb]
  | cons c u ih =>
    have hc : p c = true := hu c (by simp)
    rw [List.cons_append, List.takeWhile_cons, if_pos hc, List.inits_cons, List.findSome?_cons,
      hf [] c u rfl, List.findSome?_map]
    exact ih (fun d hd => hu d (by simp [hd]))
      (fun w d later h => hf (c :: w) d later (by simp [h])) hb

theorem findSome?_congr {l : List α} {f g : α → Option β} (h : ∀ a ∈ l, f a = g a) :
    l.findSome? f = l.findSome? g := by
  induction l with
  | nil => rfl
  | cons a l ih =>
    rw [List.findSome?_cons, List.findSome?_cons, h a (by simp), ih (fun b hb => h b (by simp [hb]))]

theorem exec_chr_cons (q : α → Bool) (c : α) (s : List α) :
    (chr q).exec (c :: s) = if q c then [⟨[c], [], s⟩] else [] := rfl

theorem findSome?_inits_until (stops : List α → Bool) (g : List α → β) (s : List α) :
    s.inits.findSome? (fun u => if stops (s.drop u.length) then some (g u) else none) =
      (textUntil stops s).map g := by
  induction s generalizing g with
  | nil =>
    have hinits : ([] : List α).inits = [[]] := rfl
    rw [textUntil, hinits, List.findSome?_singleton]
    simp only [List.length_nil, List.drop_nil]
    by_cases hstop : stops [] = true
    · rw [if_pos hstop, if_pos hstop]
      rfl
    · rw [if_neg hstop, if_neg hstop]
      rfl
  | cons c s ih =>
    rw [textUntil, List.inits_cons, List.findSome?_cons, List.length_nil, List.drop_zero]
    by_cases hstop : stops (c :: s) = true
    · rw [if_pos hstop, if_pos hstop]
      rfl
    · rw [if_neg hstop, if_neg hstop, List.findSome?_map, Option.map_map]
      exact ih (fun u => g (c :: u))

/-- A lazy group takes the text up to where the rest of the expression matches. -/
theorem exec_group_until {q : Regex α} {stops : List α → Bool} {i : ℕ} {s : List α}
    (hs : ∀ c ∈ s, p c = true) (hq : ∀ u, (q.exec u).head?.isSome = stops u)
    (hcaps : ∀ u, ∀ m ∈ q.exec u, m.caps = []) :
    (((seq (group i (star false (chr p))) q).exec s).head?).map (·.group i) =
      textUntil stops s := by
  have hgroup : (group i (star false (chr p))).exec s =
      s.inits.map (fun u => ⟨u, [(i, u)], s.drop u.length⟩) := by
    change ((star false (chr p)).exec s).map _ = _
    rw [exec_lazy, List.map_map, List.takeWhile_eq_self_iff.mpr hs]
    rfl
  rw [head?_exec_seq, hgroup, List.findSome?_map, List.map_findSome?, ← Option.map_id'
    (x := textUntil stops s), ← findSome?_inits_until]
  refine findSome?_congr (fun u _ => ?_)
  have hstop := hq (s.drop u.length)
  cases hm : (q.exec (s.drop u.length)).head? with
  | none =>
    rw [hm] at hstop
    simp [hm, ← hstop]
  | some m =>
    rw [hm] at hstop
    have hplain := hcaps _ m (List.mem_of_head? hm)
    simp [hm, ← hstop, Match.append, Match.group, Match.get, hplain]

/-! ## The text between two delimiters -/

variable [DecidableEq α] {c : α} {s n : List α}

/-- `.*?o(.*?)c`. -/
def betweenRe (p : α → Bool) (o c : α) : Regex α :=
  concat [star false (chr p), chr (· = o), group 1 (star false (chr p)), chr (· = c)]

theorem exec_group_between {w : List α} (hn : ∀ d ∈ n, p d = true) (hc : c ∉ n) :
    ((concat [group 1 (star false (chr p)), chr (· = c)]).exec (n ++ c :: w)).head? =
      some ⟨n ++ [c], [(1, n)], w⟩ := by
  have hgroup : (group 1 (star false (chr p))).exec (n ++ c :: w) =
      ((n ++ c :: w).takeWhile p).inits.map
        (fun u => ⟨u, [(1, u)], (n ++ c :: w).drop u.length⟩) := by
    change ((star false (chr p)).exec _).map _ = _
    rw [exec_lazy, List.map_map]
    rfl
  rw [concat, head?_exec_seq, hgroup, List.findSome?_map]
  refine findSome?_inits hn (fun v d later hv => ?_) ?_
  · have hd : d ≠ c := fun he => hc (by simp [hv, he])
    simp [hv, concat, exec, hd]
  · simp [concat, exec, Match.append, Match.stop]

theorem exec_betweenRe (hs : ∀ d ∈ s, p d = true) (o c : α) :
    (((betweenRe p o c).exec s).head?).map (·.group 1) = between o c s := by
  cases hb : between o c s with
  | some n =>
    obtain ⟨u, w, rfl, hu, hn⟩ := between_eq_some.mp hb
    have hinner := exec_group_between (w := w) (fun d hd => hs d (by simp [hd])) hn
    have hfirst : ((betweenRe p o c).exec (u ++ o :: (n ++ c :: w))).head? =
        some ⟨u ++ o :: (n ++ [c]), [(1, n)], w⟩ := by
      rw [betweenRe, concat, head?_exec_seq, exec_lazy, List.findSome?_map]
      refine findSome?_inits (fun d hd => hs d (by simp [hd])) (fun v d later hv => ?_) ?_
      · have hd : d ≠ o := fun he => hu (by simp [hv, he])
        simp [hv, concat, exec, hd]
      · rw [Function.comp_apply, List.drop_left, concat, head?_exec_seq, exec_chr_cons]
        simp [hinner, Match.append]
    rw [hfirst]
    rfl
  | none =>
    cases hm : ((betweenRe p o c).exec s).head? with
    | none => rfl
    | some m =>
      obtain ⟨htext, u, -, v, hv, happ⟩ := exec_sound _ _ m (List.mem_of_head? hm)
      obtain ⟨x, ⟨d, hd, rfl⟩, y, ⟨n, -, z, ⟨a, ⟨e, he, rfl⟩, b, rfl, rfl⟩, rfl⟩, rfl⟩ := hv
      obtain rfl : d = o := of_decide_eq_true hd
      obtain rfl : e = c := of_decide_eq_true he
      have hsome : (between d e (u ++ d :: (n ++ e :: m.rest))).isSome = true := between_isSome
      have hwhole : s = u ++ d :: (n ++ e :: m.rest) := by
        rw [← htext, ← happ]
        simp
      rw [← hwhole, hb] at hsome
      cases hsome

/-- Behind a literal text, the first follower of it with the delimiters decides. -/
theorem captures_lit_betweenRe (d : α) (w : List α) (hs : ∀ a ∈ s, p a = true) (o c : α) :
    ((seq (lit (d :: w)) (betweenRe p o c)).captures s).map (·.group 1) =
      (followers (d :: w) s).findSome? (between o c) := by
  rw [captures_lit_seq]
  refine findSome?_congr (fun t ht => exec_betweenRe (fun a ha => hs a ?_) o c)
  exact (suffix_of_mem_followers ht).subset ha

end Regex
end Foundation
