import Mathlib.Data.List.Basic

/-! # Programs that ask their environment

A program asks, waits and goes on with the answer, whatever that is; while it waits it may be
dropped. The log of a run has what was asked, with the answers. What every log keeps to is found
along the program: the rules are those of weakest preconditions, with the log in the place of a
state.
-/
namespace Foundation

/-- `A e` is what `e` may be answered with. -/
inductive Program {E : Type} (A : E → Type) (R : Type) where
  | done (result : R)
  | ask (e : E) (next : A e → Program A R)

/-- What stays without an answer is what the program waited for when it was dropped. -/
structure Asked {E : Type} (A : E → Type) where
  ask : E
  answer : Option (A ask)

namespace Program
variable {E K R S : Type} {A : E → Type}

def bind : Program A R → (R → Program A S) → Program A S
  | done r, f => f r
  | ask e next, f => ask e (fun a => (next a).bind f)

/-- A run with its log, and with its result unless the program was dropped. -/
inductive Runs : Program A R → List (Asked A) → Option R → Prop where
  | done (r : R) : Runs (done r) [] (some r)
  | dropped (e : E) (next : A e → Program A R) : Runs (ask e next) [⟨e, none⟩] none
  | answered {e : E} {next : A e → Program A R} {log : List (Asked A)} {out : Option R} (a : A e)
      (h : Runs (next a) log out) : Runs (ask e next) (⟨e, some a⟩ :: log) out

/-- What has to hold for all runs to end with the condition. -/
def All : Program A R → (List (Asked A) → Option R → Prop) → Prop
  | done r, Φ => Φ [] (some r)
  | ask e next, Φ =>
    Φ [⟨e, none⟩] none ∧ ∀ a, (next a).All (fun log out => Φ (⟨e, some a⟩ :: log) out)

variable {p : Program A R} {f : R → Program A S} {Φ Ψ : List (Asked A) → Option R → Prop}
  {log : List (Asked A)} {out : Option R}

theorem all_iff : p.All Φ ↔ ∀ log out, p.Runs log out → Φ log out := by
  induction p generalizing Φ with
  | done r =>
    refine ⟨fun h log out hrun => ?_, fun h => h _ _ (.done r)⟩
    cases hrun
    exact h
  | ask e next ih =>
    constructor
    · rintro ⟨hdropped, hnext⟩ log out hrun
      cases hrun with
      | dropped => exact hdropped
      | answered a hrun => exact (ih a).mp (hnext a) _ _ hrun
    · intro h
      exact ⟨h _ _ (.dropped e next),
        fun a => (ih a).mpr (fun log out hrun => h _ _ (.answered a hrun))⟩

theorem All.imp (h : p.All Φ) (hle : ∀ log out, Φ log out → Ψ log out) : p.All Ψ :=
  all_iff.mpr (fun log out hrun => hle log out (all_iff.mp h log out hrun))

theorem All.and (h : p.All Φ) (h' : p.All Ψ) : p.All (fun log out => Φ log out ∧ Ψ log out) :=
  all_iff.mpr (fun log out hrun => ⟨all_iff.mp h log out hrun, all_iff.mp h' log out hrun⟩)

/-- What is bound goes on with the log that is there. -/
theorem all_bind {Φ : List (Asked A) → Option S → Prop} : (p.bind f).All Φ ↔
    p.All (fun log out => match out with
      | none => Φ log none
      | some r => (f r).All (fun later out => Φ (log ++ later) out)) := by
  induction p generalizing Φ with
  | done r => rfl
  | ask e next ih =>
    exact and_congr_right (fun _ => forall_congr' (fun a => ih a))

/-- What the program comes to when each ask has its answer. -/
def eval (answer : (e : E) → A e) : Program A R → R
  | done r => r
  | ask e next => (next (answer e)).eval answer

theorem eval_bind (answer : (e : E) → A e) (p : Program A R) (f : R → Program A S) :
    (p.bind f).eval answer = (f (p.eval answer)).eval answer := by
  induction p with
  | done r => rfl
  | ask e next ih => exact ih (answer e)

/-! ## What is asked -/

/-- Only what satisfies the first condition is asked, and the result satisfies the second. -/
def Asks (P : E → Prop) (Q : R → Prop) (p : Program A R) : Prop :=
  p.All (fun log out => (∀ x ∈ log, P x.ask) ∧ ∀ r, out = some r → Q r)

section Asks
variable {P P' : E → Prop} {Q Q' : R → Prop}

theorem asks_done {r : R} (h : Q r) : (done r : Program A R).Asks P Q :=
  ⟨List.forall_mem_nil _, fun _ heq => Option.some.inj heq ▸ h⟩

theorem asks_ask {e : E} {next : A e → Program A R} (he : P e) (h : ∀ a, (next a).Asks P Q) :
    (ask e next).Asks P Q := by
  refine ⟨⟨List.forall_mem_singleton.mpr he, nofun⟩, fun a => (h a).imp ?_⟩
  rintro log out ⟨hlog, hout⟩
  exact ⟨List.forall_mem_cons.mpr ⟨he, hlog⟩, hout⟩

theorem asks_bind {Q' : S → Prop} (hp : p.Asks P Q) (hf : ∀ r, Q r → (f r).Asks P Q') :
    (p.bind f).Asks P Q' := by
  refine all_bind.mpr (hp.imp ?_)
  rintro log (_ | r) ⟨hlog, hout⟩
  · exact ⟨hlog, nofun⟩
  · refine (hf r (hout r rfl)).imp ?_
    rintro later out ⟨hlater, hout⟩
    exact ⟨List.forall_mem_append.mpr ⟨hlog, hlater⟩, hout⟩

theorem Asks.imp (h : p.Asks P Q) (hP : ∀ e, P e → P' e) (hQ : ∀ r, Q r → Q' r) :
    p.Asks P' Q' := by
  refine All.imp h ?_
  rintro log out ⟨hlog, hout⟩
  exact ⟨fun x hx => hP _ (hlog x hx), fun r hr => hQ r (hout r hr)⟩

end Asks

/-! ## The order of what is asked -/

/-- The asks are of these kinds, in this order, each at most once. -/
def InOrder (kind : E → K) (kinds : List K) (p : Program A R) : Prop :=
  p.All (fun log _ => (log.map (fun x => kind x.ask)).Sublist kinds)

section InOrder
variable {kind : E → K} {kinds kinds' : List K}

theorem inOrder_done (r : R) : (done r : Program A R).InOrder kind kinds := List.nil_sublist kinds

theorem inOrder_ask {e : E} {next : A e → Program A R} (h : ∀ a, (next a).InOrder kind kinds) :
    (ask e next).InOrder kind (kind e :: kinds) :=
  ⟨(List.nil_sublist kinds).cons_cons _, fun a => (h a).imp (fun _ _ hlog => hlog.cons_cons _)⟩

theorem InOrder.mono (h : p.InOrder kind kinds) (hle : kinds.Sublist kinds') :
    p.InOrder kind kinds' :=
  All.imp h (fun _ _ hlog => hlog.trans hle)

theorem inOrder_bind (hp : p.InOrder kind kinds) (hf : ∀ r, (f r).InOrder kind kinds') :
    (p.bind f).InOrder kind (kinds ++ kinds') := by
  refine all_bind.mpr (All.imp hp ?_)
  rintro log (_ | r) hlog
  · exact hlog.trans (List.sublist_append_left _ _)
  · refine All.imp (hf r) (fun later _ hlater => ?_)
    rw [List.map_append]
    exact hlog.append hlater

end InOrder

end Program
end Foundation
