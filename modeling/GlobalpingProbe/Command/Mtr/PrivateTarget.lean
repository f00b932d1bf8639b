import GlobalpingProbe.Command.Mtr.Duplicates
import GlobalpingProbe.Command.Mtr.Run

/-! # The private target guard of mtr

The guard knows the target only as the last hop with an address that is not a duplicate. A
private router is taken for the target when nothing behind it answers.
-/
namespace GlobalpingProbe.Command.Mtr
open Foundation Net

/-- The highest index with an address, those not counted that were marked as duplicates. -/
def LastUnmarked (hs : List (ℕ × Text)) (i : ℕ) (a : Text) : Prop :=
  finalAddress hs i = some a ∧ ¬ Marked hs i ∧
    ∀ j > i, (finalAddress hs j).isSome = true → Marked hs j

/-- The output ends in a public hop; an empty one has no error text that reads as a rejection. -/
def EndsPublic (localIps : List IpAddr) (stdout stderr : Text) : Prop :=
  if (trim stdout).isEmpty then stderr ≠ rejection.rawOutput
  else ∀ i a ip, LastUnmarked (hostLines stdout) i a → parseIpAddr a = some ip →
    isIpPrivate localIps ip = false

theorem lastReal_address (hops : List MtrHop) :
    (lastReal hops).bind (·.resolvedAddress) = lastSome (·.resolvedAddress) hops := by
  unfold lastReal lastSome
  induction hops.reverse with
  | nil => rfl
  | cons hop hops ih =>
    cases ha : hop.resolvedAddress with
    | none => simp [ha, ih]
    | some a => simp [ha]

theorem lastSome_filterMap {α β : Type} (f : α → Option β) (l : List α) :
    lastSome f l = (l.filterMap f).getLast? := List.getLast?_filterMap.symm

/-- The guard looks at the address of the last unmarked index. -/
theorem lastReal_eq_some {data : Text} {a : Text} :
    (lastReal (parseRaw data true)).bind (·.resolvedAddress) = some a ↔
      ∃ i, LastUnmarked (hostLines data) i a := by
  rw [lastReal_address, lastSome_filterMap, parseRaw_addresses, ← lastSome_filterMap,
    lastSome_eq_some]
  have hmem : ∀ {i b}, finalAddress (hostLines data) i = some b →
      (i ∈ keptIndices data ↔ ¬ Marked (hostLines data) i) := by
    intro i b hb
    rw [mem_keptIndices, marked_eq_false, and_iff_right (entry_isSome_of_address hb)]
  have hlt := keptIndices_increasing data
  constructor
  · rintro ⟨before, i, after, heq, ha, hnone⟩
    refine ⟨i, ha, (hmem ha).mp (by simp [heq]), fun j hj hsome => ?_⟩
    by_contra hunmarked
    obtain ⟨b, hb⟩ := Option.isSome_iff_exists.mp hsome
    have hkept := (hmem hb).mpr hunmarked
    rw [heq] at hkept hlt
    rcases List.mem_append.mp hkept with hin | hin
    · have := (List.pairwise_append.mp hlt).2.2 j hin i (by simp)
      omega
    · rcases List.mem_cons.mp hin with rfl | hin
      · exact lt_irrefl j hj
      · rw [hnone j hin] at hb
        cases hb
  · rintro ⟨i, ha, hunmarked, hhigher⟩
    obtain ⟨before, after, heq⟩ := List.append_of_mem ((hmem ha).mpr hunmarked)
    refine ⟨before, i, after, heq, ha, fun j hj => ?_⟩
    rw [heq] at hlt
    have hij := (List.pairwise_cons.mp (List.pairwise_append.mp hlt).2.1).1 j hj
    by_contra hne
    obtain ⟨b, hb⟩ := Option.ne_none_iff_exists'.mp hne
    refine absurd (hhigher j hij (by simp [hb])) ((hmem hb).mp ?_)
    rw [heq]
    simp [hj]

theorem targetPrivate_eq_false {localIps : List IpAddr} {data : Text} :
    targetPrivate localIps (parseRaw data true) = false ↔ ∀ i a ip,
      LastUnmarked (hostLines data) i a → parseIpAddr a = some ip →
        isIpPrivate localIps ip = false := by
  unfold targetPrivate
  cases ha : (lastReal (parseRaw data true)).bind (·.resolvedAddress) with
  | none =>
    apply iff_of_true rfl
    intro i a ip hlast
    rw [lastReal_eq_some.mpr ⟨i, hlast⟩] at ha
    cases ha
  | some a =>
    obtain ⟨i, hi⟩ := lastReal_eq_some.mp ha
    have hsame : ∀ {j b}, LastUnmarked (hostLines data) j b → b = a := by
      intro j b hlast
      rw [lastReal_eq_some.mpr ⟨j, hlast⟩] at ha
      exact Option.some.inj ha
    cases hip : parseIpAddr a with
    | none =>
      apply iff_of_true (by simp [hip])
      intro j b ip hlast hb
      rw [hsame hlast, hip] at hb
      cases hb
    | some ip =>
      rw [Option.bind_some, hip, Option.any_some]
      refine ⟨fun hpub j b ip' hlast hb => ?_, fun h => h i a ip hi hip⟩
      rw [hsame hlast, hip] at hb
      exact Option.some.inj hb ▸ hpub

section Runs
variable {table : CaseTable} {localIps : List IpAddr} {dig : Text → Option Text} {opts : MtrOptions}

theorem runMtr_exited (h : opts.validate table localIps = .ok ()) (stdout stderr : Text) :
    runMtr table localIps dig opts (.exited stdout stderr) =
      .ok (mtrResult localIps dig stdout stderr) := by
  unfold runMtr
  rw [h]
  rfl

theorem mtrResult_blank {stdout : Text} (h : (trim stdout).isEmpty = true) (stderr : Text) :
    mtrResult localIps dig stdout stderr ≠ rejection ↔ stderr ≠ rejection.rawOutput := by
  have htexts : "Test failed. Please try again.".toList ≠ rejection.rawOutput := by decide
  have hshown : (trim rejection.rawOutput).isEmpty = false := by decide
  unfold mtrResult
  rw [if_pos h]
  split_ifs with hblank
  · refine iff_of_true (fun he => htexts (congrArg ParsedMtr.rawOutput he)) ?_
    rintro rfl
    rw [hshown] at hblank
    cases hblank
  · refine not_congr ⟨fun he => congrArg ParsedMtr.rawOutput he, ?_⟩
    rintro rfl
    rfl

/-- A run on an accepted target is not rejected as private exactly when its output ends in a
public hop, whatever the target is. -/
theorem not_rejected_iff (h : opts.validate table localIps = .ok ()) (stdout stderr : Text) :
    runMtr table localIps dig opts (.exited stdout stderr) ≠ .ok rejection ↔
      EndsPublic localIps stdout stderr := by
  rw [runMtr_exited h, Ne, Except.ok.injEq]
  unfold EndsPublic
  split_ifs with hblank
  · exact mtrResult_blank hblank stderr
  · rw [← targetPrivate_eq_false, mtrResult, if_neg hblank, ← Bool.not_eq_true]
    refine not_congr ⟨fun he => ?_, fun hprivate => if_pos hprivate⟩
    by_contra hpub
    rw [if_neg hpub] at he
    exact absurd (congrArg ParsedMtr.status he) (by simp [finishedResult, rejection])

end Runs

def publicTarget : MtrOptions := ⟨"8.8.8.8".toList, "ICMP".toList, 80, 3, 4⟩

theorem publicTarget_accepted : publicTarget.validate .ascii [] = .ok () := by decide

/-- Only the router answers. -/
def silentTarget : Text := "h 0 192.168.1.1\nx 0 33000\np 0 512 33000\nx 1 33001\n".toList

theorem silentTarget_rejected : publicTarget.validate .ascii [] = .ok () ∧
    (parseIpAddr publicTarget.target).isSome = true ∧
    runMtr .ascii [] (fun _ => none) publicTarget (.exited silentTarget []) = .ok rejection := by
  refine ⟨publicTarget_accepted, by decide, ?_⟩
  have hprivate : targetPrivate [] (parseRaw silentTarget true) = true := by decide
  rw [runMtr_exited publicTarget_accepted, mtrResult, if_neg (by decide), if_pos hprivate]

/-- The target answers behind its router. -/
def answeringTarget : Text := "h 0 192.168.1.1\nx 0 33000\nh 1 8.8.8.8\nx 1 33001\n".toList

theorem answeringTarget_not_rejected :
    runMtr .ascii [] (fun _ => none) publicTarget (.exited answeringTarget []) ≠ .ok rejection := by
  refine (not_rejected_iff publicTarget_accepted answeringTarget []).mpr ?_
  rw [EndsPublic, if_neg (by decide)]
  exact targetPrivate_eq_false.mp (by decide)

end GlobalpingProbe.Command.Mtr
