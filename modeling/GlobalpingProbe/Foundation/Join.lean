import GlobalpingProbe.Foundation.Interaction
import Mathlib.Data.List.Forall2

/-! # Programs that wait together

Joined programs have asks under way at the same time. A schedule says whose answer comes next;
every order is one for some schedule. The log of the whole is a shuffle of the logs of its
parts, and what they come to with fixed answers does not depend on the order.
-/
namespace Foundation

/-- The third list is made of the other two, each in its order. -/
inductive Shuffle {α : Type} : List α → List α → List α → Prop where
  | nil : Shuffle [] [] []
  | left (a : α) {xs ys zs : List α} (h : Shuffle xs ys zs) : Shuffle (a :: xs) ys (a :: zs)
  | right (a : α) {xs ys zs : List α} (h : Shuffle xs ys zs) : Shuffle xs (a :: ys) (a :: zs)

namespace Shuffle
variable {α : Type} {xs ys zs : List α}

theorem nil_right (xs : List α) : Shuffle xs [] xs := by
  induction xs with
  | nil => exact .nil
  | cons a xs ih => exact .left a ih

theorem nil_left (ys : List α) : Shuffle [] ys ys := by
  induction ys with
  | nil => exact .nil
  | cons a ys ih => exact .right a ih

theorem eq_of_nil_left (h : Shuffle [] ys zs) : zs = ys := by
  induction zs generalizing ys with
  | nil =>
    cases h
    rfl
  | cons a zs ih =>
    cases h with
    | right _ h => rw [ih h]

theorem mem_iff (h : Shuffle xs ys zs) {a : α} : a ∈ zs ↔ a ∈ xs ∨ a ∈ ys := by
  induction h with
  | nil => simp
  | left b _ ih => simp only [List.mem_cons, ih, or_assoc]
  | right b _ ih => simp only [List.mem_cons, ih, or_left_comm]

theorem sublist_left (h : Shuffle xs ys zs) : xs.Sublist zs := by
  induction h with
  | nil => exact .slnil
  | left a _ ih => exact ih.cons_cons a
  | right a _ ih => exact ih.cons a

theorem sublist_right (h : Shuffle xs ys zs) : ys.Sublist zs := by
  induction h with
  | nil => exact .slnil
  | left a _ ih => exact ih.cons a
  | right a _ ih => exact ih.cons_cons a

/-- What is shuffled last can be shuffled first. -/
theorem assoc {vs ws : List α} (h : Shuffle vs zs ws) (h' : Shuffle xs ys vs) :
    ∃ us, Shuffle ys zs us ∧ Shuffle xs us ws := by
  induction h generalizing xs ys with
  | nil =>
    cases h'
    exact ⟨[], .nil, .nil⟩
  | left a _ ih =>
    cases h' with
    | left _ h' =>
      obtain ⟨us, hus, hws⟩ := ih h'
      exact ⟨us, hus, hws.left a⟩
    | right _ h' =>
      obtain ⟨us, hus, hws⟩ := ih h'
      exact ⟨a :: us, hus.left a, hws.right a⟩
  | right a _ ih =>
    obtain ⟨us, hus, hws⟩ := ih h'
    exact ⟨a :: us, hus.right a, hws.right a⟩

theorem filterMap_right {β : Type} {f : α → Option β} (h : Shuffle xs ys zs)
    (hxs : ∀ a ∈ xs, f a = none) : zs.filterMap f = ys.filterMap f := by
  induction h with
  | nil => rfl
  | left a _ ih =>
    rw [List.filterMap_cons_none (hxs a List.mem_cons_self)]
    exact ih (fun b hb => hxs b (List.mem_cons_of_mem a hb))
  | right a _ ih =>
    rw [List.filterMap_cons, List.filterMap_cons, ih hxs]

theorem filterMap_left {β : Type} {f : α → Option β} (h : Shuffle xs ys zs)
    (hys : ∀ a ∈ ys, f a = none) : zs.filterMap f = xs.filterMap f := by
  induction h with
  | nil => rfl
  | left a _ ih =>
    rw [List.filterMap_cons, List.filterMap_cons, ih hys]
  | right a _ ih =>
    rw [List.filterMap_cons_none (hys a List.mem_cons_self)]
    exact ih (fun b hb => hys b (List.mem_cons_of_mem a hb))

theorem filter_left (h : Shuffle xs ys zs) {p : α → Bool} (hys : ∀ a ∈ ys, p a = false) :
    zs.filter p = xs.filter p := by
  rw [← List.filterMap_eq_filter]
  exact h.filterMap_left (fun a ha => by simp [Option.guard, hys a ha])

theorem countP_eq (h : Shuffle xs ys zs) (p : α → Bool) :
    zs.countP p = xs.countP p + ys.countP p := by
  induction h with
  | nil => rfl
  | left a _ ih =>
    simp only [List.countP_cons, ih]
    omega
  | right a _ ih =>
    simp only [List.countP_cons, ih]
    omega

end Shuffle

/-- The second argument is made of all the lists of the first, each in its order. -/
inductive ShuffleAll {α : Type} : List (List α) → List α → Prop where
  | nil : ShuffleAll [] []
  | cons {l later whole : List α} {ls : List (List α)} (h : Shuffle l later whole)
      (hls : ShuffleAll ls later) : ShuffleAll (l :: ls) whole

namespace ShuffleAll
variable {α : Type} {ls ms : List (List α)} {xs ys zs : List α}

theorem mem_iff (h : ShuffleAll ls zs) {a : α} : a ∈ zs ↔ ∃ l ∈ ls, a ∈ l := by
  induction h with
  | nil => simp
  | cons h _ ih => rw [h.mem_iff, ih, List.exists_mem_cons_iff]

theorem append (h : Shuffle xs ys zs) (hxs : ShuffleAll ls xs) (hys : ShuffleAll ms ys) :
    ShuffleAll (ls ++ ms) zs := by
  induction hxs generalizing zs with
  | nil =>
    rw [h.eq_of_nil_left]
    exact hys
  | cons hl _ ih =>
    obtain ⟨us, hus, hzs⟩ := h.assoc hl
    exact .cons hzs (ih hus)

end ShuffleAll

/-- Whether the answer to the first of two programs comes next. -/
abbrev Schedule := ℕ → Bool

namespace Program
variable {E R S : Type} {A : E → Type}

/-- The first program waits for `e`, and goes on with `left`. -/
def joinWaiting (e : E) (left : A e → Schedule → Program A S → Program A (R × S))
    (p : Program A R) : Schedule → Program A S → Program A (R × S)
  | _, done s => p.bind (fun r => done (r, s))
  | sched, ask e' next' =>
    if sched 0 then ask e (fun a => left a (fun n => sched (n + 1)) (ask e' next'))
    else ask e' (fun a => joinWaiting e left p (fun n => sched (n + 1)) (next' a))

/-- Both programs, each going on when its answer comes. -/
def join : Program A R → Schedule → Program A S → Program A (R × S)
  | done r => fun _ q => q.bind (fun s => done (r, s))
  | ask e next => joinWaiting e (fun a => join (next a)) (ask e next)

def joinAll : (ℕ → Schedule) → List (Program A R) → Program A (List R)
  | _, [] => done []
  | scheds, p :: ps =>
    (join p (scheds 0) (joinAll (fun n => scheds (n + 1)) ps)).bind (fun rs => done (rs.1 :: rs.2))

variable {p : Program A R} {log : List (Asked A)}

/-- A run to the end of two programs, one after the other. -/
theorem runs_bind {f : R → Program A S} {s : S} (h : (p.bind f).Runs log (some s)) :
    ∃ l l' r, p.Runs l (some r) ∧ (f r).Runs l' (some s) ∧ log = l ++ l' := by
  induction p generalizing log with
  | done r => exact ⟨[], log, r, .done r, h, rfl⟩
  | ask e next ih =>
    cases h with
    | answered a h =>
      obtain ⟨l, l', r, hr, hs, rfl⟩ := ih a h
      exact ⟨_, l', r, .answered a hr, hs, rfl⟩

theorem runs_bind_done {f : R → S} {s : S} (h : (p.bind (fun r => done (f r))).Runs log (some s)) :
    ∃ r, p.Runs log (some r) ∧ f r = s := by
  obtain ⟨l, l', r, hr, hs, rfl⟩ := runs_bind h
  cases hs
  exact ⟨r, by rwa [List.append_nil], rfl⟩

/-! ## One rule for what is asked, and one for what comes of it -/

section Asks
variable {P : E → Prop} {Q : R → Prop} {Q' : S → Prop}

theorem Asks.next {e : E} {next : A e → Program A R} (h : (ask e next).Asks P Q) :
    P e ∧ ∀ a, (next a).Asks P Q := by
  refine ⟨h.1.1 ⟨e, none⟩ List.mem_cons_self, fun a => (h.2 a).imp ?_⟩
  rintro log out ⟨hlog, hout⟩
  exact ⟨fun x hx => hlog x (List.mem_cons_of_mem _ hx), hout⟩

theorem asks_join {p : Program A R} {q : Program A S} (sched : Schedule) (hp : p.Asks P Q)
    (hq : q.Asks P Q') : (p.join sched q).Asks P (fun rs => Q rs.1 ∧ Q' rs.2) := by
  induction p generalizing sched q with
  | done r =>
    have hr : Q r := hp.2 r rfl
    exact asks_bind hq (fun s hs => asks_done ⟨hr, hs⟩)
  | ask e next ih =>
    induction q generalizing sched with
    | done s =>
      have hs : Q' s := hq.2 s rfl
      exact asks_bind hp (fun r hr => asks_done ⟨hr, hs⟩)
    | ask e' next' ih' =>
      rw [join, joinWaiting]
      split_ifs
      · exact asks_ask hp.next.1 (fun a => ih a _ (hp.next.2 a) hq)
      · exact asks_ask hq.next.1 (fun a => ih' a _ (hq.next.2 a))

theorem asks_joinAll (scheds : ℕ → Schedule) {ps : List (Program A R)}
    (h : ∀ p ∈ ps, p.Asks P Q) : (joinAll scheds ps).Asks P (fun rs => ∀ r ∈ rs, Q r) := by
  induction ps generalizing scheds with
  | nil => exact asks_done (List.forall_mem_nil _)
  | cons p ps ih =>
    have hps := ih (fun n => scheds (n + 1)) (fun q hq => h q (List.mem_cons_of_mem p hq))
    have hp := asks_join (scheds 0) (h p List.mem_cons_self) hps
    exact asks_bind hp (fun rs hrs => asks_done (List.forall_mem_cons.mpr hrs))

end Asks

/-- A run to the end is one of each program, with their asks shuffled. -/
theorem runs_join {p : Program A R} {q : Program A S} {sched : Schedule} {log : List (Asked A)}
    {r : R} {s : S} (h : (p.join sched q).Runs log (some (r, s))) :
    ∃ l l', p.Runs l (some r) ∧ q.Runs l' (some s) ∧ Shuffle l l' log := by
  induction p generalizing sched q log with
  | done r' =>
    obtain ⟨s', hq, heq⟩ := runs_bind_done h
    cases heq
    exact ⟨[], log, .done r, hq, .nil_left log⟩
  | ask e next ih =>
    induction q generalizing sched log with
    | done s' =>
      obtain ⟨r', hp, heq⟩ := runs_bind_done h
      cases heq
      exact ⟨log, [], hp, .done s, .nil_right log⟩
    | ask e' next' ih' =>
      rw [join, joinWaiting] at h
      split_ifs at h
      · cases h with
        | answered a h =>
          obtain ⟨l, l', hp, hq, hlog⟩ := ih a h
          exact ⟨_, l', .answered a hp, hq, hlog.left _⟩
      · cases h with
        | answered a h =>
          obtain ⟨l, l', hp, hq, hlog⟩ := ih' a h
          exact ⟨l, _, hp, .answered a hq, hlog.right _⟩

/-- A run to the end of all programs is a shuffle of one of each. -/
theorem runs_joinAll {scheds : ℕ → Schedule} {ps : List (Program A R)} {log : List (Asked A)}
    {rs : List R} (h : (joinAll scheds ps).Runs log (some rs)) :
    ∃ parts : List (List (Asked A) × R), rs = parts.map Prod.snd ∧
      ShuffleAll (parts.map Prod.fst) log ∧
      List.Forall₂ (fun p part => p.Runs part.1 (some part.2) ∧ part.1.Sublist log) ps parts := by
  induction ps generalizing scheds log rs with
  | nil =>
    cases h
    exact ⟨[], rfl, .nil, .nil⟩
  | cons p ps ih =>
    obtain ⟨⟨r, later⟩, hjoin, rfl⟩ := runs_bind_done h
    obtain ⟨l, l', hp, hps, hlog⟩ := runs_join hjoin
    obtain ⟨parts, hlater, hshuffle, hparts⟩ := ih hps
    refine ⟨(l, r) :: parts, congrArg (r :: ·) hlater, .cons hlog hshuffle,
      .cons ⟨hp, hlog.sublist_left⟩ (hparts.imp ?_)⟩
    rintro q part ⟨hq, hsub⟩
    exact ⟨hq, hsub.trans hlog.sublist_right⟩

theorem eval_join (answer : (e : E) → A e) (p : Program A R) (sched : Schedule)
    (q : Program A S) : (p.join sched q).eval answer = (p.eval answer, q.eval answer) := by
  induction p generalizing sched q with
  | done r => exact eval_bind answer q _
  | ask e next ih =>
    induction q generalizing sched with
    | done s => exact eval_bind answer (ask e next) _
    | ask e' next' ih' =>
      rw [join, joinWaiting]
      split_ifs
      · exact ih _ _ _
      · exact ih' _ _

theorem eval_joinAll (answer : (e : E) → A e) (scheds : ℕ → Schedule) (ps : List (Program A R)) :
    (joinAll scheds ps).eval answer = ps.map (fun p => p.eval answer) := by
  induction ps generalizing scheds with
  | nil => rfl
  | cons p ps ih =>
    rw [joinAll, eval_bind, eval_join, ih]
    rfl

end Program
end Foundation
