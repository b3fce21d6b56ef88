import PdfStore.Proofs.Following
import PdfStore.Proofs.IdentityHistory

/-!
# Chains of references

A reference whose object is a reference leads to that one (`Session.chain`). A chain has no other end than an
object, a reference without a source, or one that it has come across before (`Session.Ending`), and following
a reference finds it.
-/

namespace PdfStore.Session

variable {s : Session} {r q p : Reference} {o : Object} {l : List Reference} {m n k : Nat}

/-! ## The members of a chain -/

/-- The reference that the object in the source of a reference is. -/
def next? (s : Session) (r : Reference) : Option Reference := (s.origin r).bind Object.reference?

/-- The references that one after the other are come across when `r` is followed. -/
def chain (s : Session) (r : Reference) : Nat → Option Reference
  | 0 => some r
  | n + 1 => (s.chain r n).bind s.next?

/-- The first `n` members of a chain are different ones. -/
def Distinct (s : Session) (r : Reference) (n : Nat) : Prop :=
  ∀ k < n, ∀ m < k, s.chain r m ≠ s.chain r k

instance : Decidable (s.Distinct r n) := inferInstanceAs (Decidable (∀ k < n, ∀ m < k, _ ≠ _))

/-- What a chain comes to. -/
inductive Ending (s : Session) (r : Reference) : Except SessionError Object → Prop
  | object {n : Nat} {q : Reference} {o : Object} (hq : s.chain r n = some q) (ho : s.origin q = some o)
      (hn : ∀ q', o ≠ .indirect q') : Ending s r (.ok o)
  /-- A member is met again, and no other one has been met again before. -/
  | cycle {m n : Nat} {q : Reference} (hm : m < n) (hfirst : s.chain r m = some q) (hq : s.chain r n = some q)
      (hd : s.Distinct r n) : Ending s r (.error (.cyclicReference q))
  | noSource {n : Nat} {q : Reference} (hq : s.chain r n = some q) (hk : s.bindings.Knows q)
      (hn : s.bindings.source q = none) : Ending s r (.error (.noSource q))
  | unknown (hk : ¬ s.bindings.Knows r) : Ending s r (.error (.unknownReference r))

theorem next?_eq_some : s.next? r = some q ↔ s.origin r = some (.indirect q) := by
  rw [next?, Option.bind_eq_some_iff]
  constructor
  · rintro ⟨o, ho, hq⟩
    cases o with
    | indirect q' => cases hq; exact ho
    | _ => cases hq
  · exact fun ho => ⟨_, ho, rfl⟩

theorem chain_succ (hq : s.chain r n = some q) : s.chain r (n + 1) = s.next? q := by
  rw [chain, hq, Option.bind_some]

theorem chain_of_le (hq : s.chain r n = some q) (hm : m ≤ n) : ∃ p, s.chain r m = some p := by
  induction n generalizing q with
  | zero => exact ⟨r, by rw [Nat.le_zero.1 hm]; rfl⟩
  | succ n ih =>
      rcases Nat.le_succ_iff.1 hm with hm | rfl
      · obtain ⟨p, hp, -⟩ := Option.bind_eq_some_iff.1 hq
        exact ih hp hm
      · exact ⟨q, hq⟩

/-- A chain that comes back goes on as it has before. -/
theorem chain_add (h : s.chain r m = s.chain r k) (n : Nat) : s.chain r (m + n) = s.chain r (k + n) := by
  induction n with
  | zero => exact h
  | succ n ih => rw [← Nat.add_assoc, ← Nat.add_assoc, chain, chain, ih]

/-- A chain that ends does not come back. -/
theorem distinct_of_last (hq : s.chain r n = some q) (hlast : s.next? q = none) : s.Distinct r (n + 1) := by
  intro k hk m hmk heq
  have hend : s.chain r (m + (n - k) + 1) = none := by
    rw [chain, chain_add heq, Nat.add_sub_cancel' (Nat.lt_succ_iff.1 hk), hq, Option.bind_some, hlast]
  obtain ⟨p, hp⟩ := chain_of_le hq (show m + (n - k) + 1 ≤ n by omega)
  rw [hp] at hend
  cases hend

theorem Distinct.mono (h : s.Distinct r n) (hm : m ≤ n) : s.Distinct r m :=
  fun k hk => h k (Nat.lt_of_lt_of_le hk hm)

theorem Distinct.succ (h : s.Distinct r n) (hnew : ∀ m < n, s.chain r m ≠ s.chain r n) : s.Distinct r (n + 1) := by
  intro k hk
  rcases Nat.lt_succ_iff_lt_or_eq.1 hk with hk | rfl
  · exact h k hk
  · exact hnew

theorem known_of_next (h : s.WellFormed) (hq : s.next? r = some q) : s.bindings.Knows q := by
  obtain ⟨i, b, -, hp⟩ := origin_eq_some (next?_eq_some.1 hq)
  exact (h.sound hp).2 q List.mem_cons_self

theorem known_of_chain_succ (h : s.WellFormed) (hq : s.chain r (n + 1) = some q) : s.bindings.Knows q := by
  obtain ⟨p, -, hp⟩ := Option.bind_eq_some_iff.1 hq
  exact known_of_next h hp

theorem known_of_chain (h : s.WellFormed) (hr : s.bindings.Knows r) (hq : s.chain r n = some q) :
    s.bindings.Knows q := by
  cases n with
  | zero => cases hq; exact hr
  | succ n => exact known_of_chain_succ h hq

theorem known_of_origin (ho : s.origin r = some o) : s.bindings.Knows r := by
  obtain ⟨i, b, -, hp⟩ := origin_eq_some ho
  obtain ⟨id, hv⟩ := view_of_place (by simp [hp] : s.place i r ≠ .absent)
  exact Bindings.known_of_view hv

theorem source_of_origin (h : s.WellFormed) (ho : s.origin r = none) : s.bindings.source r = none := by
  cases hs : s.bindings.source r with
  | none => rfl
  | some i =>
      obtain ⟨o, b, hp⟩ := h.source hs
      rw [origin_of_source hs hp] at ho
      cases ho

/-! ## Following a chain -/

/-- What is left to be followed at the `n`th member of a chain: the references that it has not come across. -/
structure Left (s : Session) (r : Reference) (n : Nat) (l : List Reference) : Prop where
  nodup : l.Nodup
  mem_iff : ∀ {x}, x ∈ l ↔ s.bindings.Knows x ∧ ∀ m < n, s.chain r m ≠ some x

theorem mem_references {x : Reference} : x ∈ s.bindings.references ↔ s.bindings.Knows x := by
  rw [Bindings.references, List.mem_map, Bindings.Knows]
  constructor
  · rintro ⟨n, hn, rfl⟩
    exact List.mem_range.1 hn
  · exact fun hx => ⟨x.index, List.mem_range.2 hx, rfl⟩

theorem left_references (s : Session) (r : Reference) : s.Left r 0 s.bindings.references where
  nodup := List.Pairwise.map Reference.mk (fun _ _ hne heq => hne (Reference.mk.inj heq)) List.nodup_range
  mem_iff := by simp [mem_references]

theorem Left.erase (h : s.Left r n l) (hq : s.chain r n = some q) : s.Left r (n + 1) (l.erase q) where
  nodup := h.nodup.erase q
  mem_iff := fun {x} => by
    rw [h.nodup.mem_erase_iff, h.mem_iff]
    constructor
    · rintro ⟨hne, hk, hm⟩
      refine ⟨hk, fun m hlt heq => ?_⟩
      rcases Nat.lt_succ_iff_lt_or_eq.1 hlt with hlt | rfl
      · exact hm m hlt heq
      · rw [hq] at heq
        exact hne (Option.some.inj heq).symm
    · rintro ⟨hk, hm⟩
      refine ⟨fun heq => hm n (Nat.lt_succ_self n) (heq ▸ hq), hk, fun m hlt => hm m (Nat.lt_succ_of_lt hlt)⟩

theorem Left.mem (h : s.Left r n l) (hd : s.Distinct r (n + 1)) (hq : s.chain r n = some q)
    (hk : s.bindings.Knows q) : q ∈ l :=
  h.mem_iff.2 ⟨hk, fun m hm => hq ▸ hd n (Nat.lt_succ_self n) m hm⟩

/-- Following a reference comes to every member of its chain, as long as they are different ones. -/
theorem dereference_eq_follow (h : s.WellFormed) (hq : s.chain r n = some q) (hd : s.Distinct r n) :
    ∃ l, s.dereference r = s.follow l q ∧ s.Left r n l := by
  induction n generalizing q with
  | zero =>
      cases hq
      exact ⟨_, rfl, left_references s r⟩
  | succ n ih =>
      obtain ⟨p, hp, hnext⟩ := Option.bind_eq_some_iff.1 hq
      have ho := next?_eq_some.1 hnext
      obtain ⟨l, heq, hl⟩ := ih hp (hd.mono (Nat.le_succ n))
      refine ⟨l.erase p, heq.trans ?_, hl.erase hp⟩
      exact follow_next (hl.mem hd hp (known_of_origin ho)) (sourceObject_some h ho)

/-- The chain of a reference comes to what following it finds. -/
theorem ending_follow (h : s.WellFormed) (hr : s.bindings.Knows r) {n : Nat} {q : Reference} {l : List Reference}
    (hq : s.chain r n = some q) (hd : s.Distinct r n) (hl : s.Left r n l) : s.Ending r (s.follow l q) := by
  have hk := known_of_chain h hr hq
  by_cases hmem : q ∈ l
  · cases ho : s.origin q with
    | none =>
        rw [follow_error hmem (sourceObject_none h hk ho)]
        exact .noSource hq hk (source_of_origin h ho)
    | some o =>
        have hobj := sourceObject_some h ho
        cases o with
        | indirect q' =>
            have hlt : (l.erase q).length < l.length := by
              rw [← List.length_erase_add_one hmem]
              exact Nat.lt_succ_self _
            rw [follow_next hmem hobj]
            refine ending_follow h hr ((chain_succ hq).trans (next?_eq_some.2 ho)) (hd.succ ?_) (hl.erase hq)
            exact fun m hm => hq ▸ (hl.mem_iff.1 hmem).2 m hm
        | _ =>
            rw [follow_end hmem hobj (by simp)]
            exact .object hq ho (by simp)
  · rw [follow_visited hk hmem]
    have hback : ∃ m < n, s.chain r m = some q := by
      by_contra hnone
      exact hmem (hl.mem_iff.2 ⟨hk, fun m hm heq => hnone ⟨m, hm, heq⟩⟩)
    obtain ⟨m, hm, hfirst⟩ := hback
    exact .cycle hm hfirst hq hd
termination_by l.length

theorem dereference_unknown (hr : ¬ s.bindings.Knows r) : s.dereference r = .error (.unknownReference r) :=
  follow_unknown hr

theorem ending_dereference (h : s.WellFormed) (r : Reference) : s.Ending r (s.dereference r) := by
  by_cases hr : s.bindings.Knows r
  · exact ending_follow h hr rfl (fun _ hk => absurd hk (Nat.not_lt_zero _)) (left_references s r)
  · rw [dereference_unknown hr]
    exact .unknown hr

theorem dereference_of_ending (h : s.WellFormed) {x : Except SessionError Object} (hx : s.Ending r x) :
    s.dereference r = x := by
  cases hx with
  | @object n q o hq ho hn =>
      have hlast : s.next? q = none := by
        rw [next?, ho, Option.bind_some]
        cases o with
        | indirect q' => exact absurd rfl (hn q')
        | _ => rfl
      have hd := distinct_of_last hq hlast
      obtain ⟨l, heq, hl⟩ := dereference_eq_follow h hq (hd.mono (Nat.le_succ n))
      exact heq.trans (follow_end (hl.mem hd hq (known_of_origin ho)) (sourceObject_some h ho) hn)
  | @cycle m n q hm hfirst hq hd =>
      obtain ⟨l, heq, hl⟩ := dereference_eq_follow h hq hd
      have hk : s.bindings.Knows q := by
        cases n with
        | zero => exact absurd hm (Nat.not_lt_zero m)
        | succ n => exact known_of_chain_succ h hq
      exact heq.trans (follow_visited hk fun hmem => (hl.mem_iff.1 hmem).2 m hm hfirst)
  | @noSource n q hq hk hn =>
      have ho : s.origin q = none := by rw [origin, hn, Option.bind_none]
      have hd := distinct_of_last hq (by rw [next?, ho, Option.bind_none])
      obtain ⟨l, heq, hl⟩ := dereference_eq_follow h hq (hd.mono (Nat.le_succ n))
      exact heq.trans (follow_error (hl.mem hd hq hk) (sourceObject_none h hk ho))
  | unknown hk => exact dereference_unknown hk

/-- Whatever calls have been made: following a reference ends, with what its chain comes to and with nothing
else. So no error of a store and no closed store are met on the way. -/
theorem dereference_eq_iff {filters : Registry} {log : Log} (hrun : Runs perform (ofFilters filters) log s)
    (r : Reference) (x : Except SessionError Object) : s.dereference r = x ↔ s.Ending r x := by
  have h := (tracks_run hrun).wellFormed
  exact ⟨fun hx => hx ▸ ending_dereference h r, dereference_of_ending h⟩

/-- A chain that runs into a cycle behind its first member, and one that comes to a reference without a source. -/
theorem dereference_eq_iff_of_cycle : ∃ log s, Runs perform (ofFilters .standard) log s ∧
    log.map Event.call = [.write ⟨3⟩ (.indirect ⟨4⟩), .newReferenceIn [⟨0⟩], .newReferenceIn [⟨0⟩],
      .write ⟨0⟩ (.indirect ⟨1⟩), .write ⟨1⟩ (.indirect ⟨2⟩), .write ⟨2⟩ (.indirect ⟨1⟩), .newReferenceIn [⟨0⟩],
      .newReferenceIn [⟨0⟩], .newReferenceIn [⟨0⟩], .createStore .memory ⟨"1.4", true, 2, 2⟩] ∧
    s.dereference ⟨0⟩ = .error (.cyclicReference ⟨1⟩) ∧ s.dereference ⟨2⟩ = .error (.cyclicReference ⟨2⟩) ∧
    s.dereference ⟨3⟩ = .error (.noSource ⟨4⟩) := by
  let calls : List Call := [.createStore .memory ⟨"1.4", true, 2, 2⟩, .newReferenceIn [⟨0⟩], .newReferenceIn [⟨0⟩],
    .newReferenceIn [⟨0⟩], .write ⟨2⟩ (.indirect ⟨1⟩), .write ⟨1⟩ (.indirect ⟨2⟩), .write ⟨0⟩ (.indirect ⟨1⟩),
    .newReferenceIn [⟨0⟩], .newReferenceIn [⟨0⟩], .write ⟨3⟩ (.indirect ⟨4⟩)]
  have hrun := runs_events perform calls (ofFilters .standard)
  have hcalls := Operation.map_call_events perform calls (ofFilters .standard)
  have hseen : let s := Operation.after perform calls (ofFilters .standard)
      s.chain ⟨0⟩ 1 = some ⟨1⟩ ∧ s.chain ⟨0⟩ 3 = some ⟨1⟩ ∧ s.Distinct ⟨0⟩ 3 ∧ s.chain ⟨2⟩ 2 = some ⟨2⟩ ∧
      s.Distinct ⟨2⟩ 2 ∧ s.chain ⟨3⟩ 1 = some ⟨4⟩ ∧ s.bindings.Knows ⟨4⟩ ∧ s.bindings.source ⟨4⟩ = none := by
    decide +kernel
  -- What the calls lead to is not to be computed again.
  generalize Operation.after perform calls (ofFilters .standard) = s at hrun hseen
  generalize Operation.events perform calls (ofFilters .standard) = log at hrun hcalls
  obtain ⟨h₁, h₃, hd₃, h₂, hd₂, hlast, hk, hnone⟩ := hseen
  refine ⟨log, s, hrun, hcalls, ?_, ?_, ?_⟩
  · exact (dereference_eq_iff hrun _ _).2 (.cycle (by decide) h₁ h₃ hd₃)
  · exact (dereference_eq_iff hrun _ _).2 (.cycle (show 0 < 2 by decide) rfl h₂ hd₂)
  · exact (dereference_eq_iff hrun _ _).2 (.noSource hlast hk hnone)

end PdfStore.Session
