import PdfStore.Proofs.ClosedFile

/-!
# Reads between other calls

Reading back moves the cursor of the output away from its end, and hands over the bytes that waited. It comes back to
where the next byte goes, so the other calls do the same as if nothing had been read: they have the same outcomes, and
the output gets the same bytes. A full device is left out, because it takes no bytes that have waited.
-/

namespace PdfStore

/-! ## Operations in related states -/

namespace Operation

variable {ε ε' σ α β : Type} {R : σ → σ → Prop}

/-- The same answer or the same error, with related states. -/
inductive Beside (R : σ → σ → Prop) : EStateM.Result ε σ α → EStateM.Result ε σ α → Prop
  | ok (a : α) {s t : σ} (h : R s t) : Beside R (.ok a s) (.ok a t)
  | error (e : ε) {s t : σ} (h : R s t) : Beside R (.error e s) (.error e t)

/-- In related states an operation does the same. -/
def Agrees (R : σ → σ → Prop) (x : Operation ε σ α) : Prop := ∀ s t, R s t → Beside R (x s) (x t)

namespace Agrees

variable {x : Operation ε σ α} {s t : σ}

theorem outcome (hx : x.Agrees R) (h : R s t) : x.outcome t = x.outcome s := by
  have hb := hx s t h
  unfold Operation.outcome
  generalize x s = r, x t = r' at hb
  cases hb <;> rfl

theorem next (hx : x.Agrees R) (h : R s t) : R (x.next s) (x.next t) := by
  have hb := hx s t h
  unfold Operation.next
  generalize x s = r, x t = r' at hb
  cases hb <;> assumption

theorem pure (a : α) : (Pure.pure a : Operation ε σ α).Agrees R := fun _ _ h => .ok a h

theorem throw (e : ε) : (MonadExcept.throw e : Operation ε σ α).Agrees R := fun _ _ h => .error e h

theorem ofExcept (cause : ε' → ε) (y : Except ε' α) : (Operation.ofExcept cause y : Operation ε σ α).Agrees R :=
  fun _ _ h => by
    cases y with
    | ok a => exact .ok a h
    | error e => exact .error (cause e) h

theorem bind {f : α → Operation ε σ β} (hx : x.Agrees R) (hf : ∀ a, (f a).Agrees R) : (x >>= f).Agrees R :=
  fun s t h => by
    have hb := hx s t h
    rw [bind_apply, bind_apply]
    generalize x s = r, x t = r' at hb
    cases hb with
    | ok a h => exact hf a _ _ h
    | error e h => exact .error e h

/-- An operation that begins with what related states have in common. -/
theorem get_bind {f : σ → Operation ε σ β} (hsame : ∀ s t, R s t → f t = f s) (hf : ∀ s, (f s).Agrees R) :
    (get >>= f).Agrees R := fun s t h => by
  rw [bind_of_ok (get_apply s), bind_of_ok (get_apply t), hsame s t h]
  exact hf s s t h

end Agrees

end Operation

/-! ## Cursors that differ in which bytes wait -/

/-- The same bytes appended to the same device, which takes bytes. -/
structure OutputCursor.Twin (o o' : OutputCursor) : Prop where
  device : o'.device = o.device
  content : o'.content = o.content
  room : o.device ≠ .full

namespace OutputCursor

variable {o o' : OutputCursor}

theorem Twin.room' (h : o.Twin o') : o'.device ≠ .full := h.device ▸ h.room

theorem Twin.flushed (h : o.Twin o') : o.flushed.Twin o'.flushed :=
  ⟨h.device, (Cursor.content_flushed _).trans (h.content.trans (Cursor.content_flushed _).symm), h.room⟩

theorem agrees_append (b : Bytes) : (append b).Agrees Twin := fun o o' h => by
  rcases append_cases o b with ⟨o₁, hok, hd, hcontent⟩ | ⟨-, hfull⟩
  · rcases append_cases o' b with ⟨o₂, hok', hd', hcontent'⟩ | ⟨-, hfull⟩
    · rw [hok, hok', position_eq, position_eq, h.content]
      exact .ok _ ⟨hd'.trans (h.device.trans hd.symm), by rw [hcontent, hcontent', h.content], hd ▸ h.room⟩
    · exact absurd hfull h.room'
  · exact absurd hfull h.room

theorem agrees_readAt (offset length : Nat) : (readAt offset length).Agrees Twin := fun o o' h => by
  have hbytes : o'.bytesAt? offset length = o.bytesAt? offset length := by
    rw [Cursor.bytesAt?, Cursor.bytesAt?, h.content]
  cases hb : o.bytesAt? offset length with
  | none =>
      rw [readAt_none h.room hb, readAt_none h.room' (hbytes.trans hb)]
      exact .error () h.flushed
  | some b =>
      rw [readAt_some h.room hb, readAt_some h.room' (hbytes.trans hb)]
      exact .ok b h.flushed

theorem agrees_finish : finish.Agrees Twin := fun o o' h => by
  rcases finish_cases o with hok | ⟨-, hfull⟩
  · rcases finish_cases o' with hok' | ⟨-, hfull⟩
    · rw [hok, hok', h.device, h.content]
      exact .ok _ h.flushed
    · exact absurd hfull h.room'
  · exact absurd hfull h.room

end OutputCursor

/-! ## Stores that differ in which bytes wait -/

namespace Store

variable {st st' first : Store} {id : ObjectId} {o : Object} {refs : ReferenceTable} {log : Log}

/-- Stores that are alike, on a device that takes bytes. -/
structure Twin (st st' : Store) : Prop where
  alike : st.Alike st'
  room : st.output.device ≠ .full

theorem Twin.output (h : st.Twin st') : st.output.Twin st'.output := ⟨h.alike.device, h.alike.content, h.room⟩

theorem agrees_onTable {α : Type} (x : Operation TableError Table α) : (onTable x).Agrees Twin := by
  rintro st st' ⟨h, hroom⟩
  cases hx : x st.table with
  | ok a u =>
      rw [onTable_ok hx, onTable_ok (h.table ▸ hx)]
      exact .ok a ⟨⟨h.config, rfl, h.payloads, h.catalog, h.info, h.device, h.content⟩, hroom⟩
  | error e u =>
      rw [onTable_error hx, onTable_error (h.table ▸ hx)]
      exact .error _ ⟨⟨h.config, rfl, h.payloads, h.catalog, h.info, h.device, h.content⟩, hroom⟩

theorem agrees_onOutput {α : Type} {x : Operation Unit OutputCursor α} (hx : x.Agrees OutputCursor.Twin) :
    (onOutput x).Agrees Twin := fun st st' h => by
  have hb := hx _ _ h.output
  have hstore : ∀ {o o' : OutputCursor}, o.Twin o' → Twin { st with output := o } { st' with output := o' } := fun ho =>
    ⟨⟨h.alike.config, h.alike.table, h.alike.payloads, h.alike.catalog, h.alike.info, ho.device, ho.content⟩, ho.room⟩
  cases hs : x st.output <;> cases ht : x st'.output <;> rw [hs, ht] at hb
  case ok.ok =>
    cases hb with
    | ok _ ho =>
        rw [onOutput_ok hs, onOutput_ok ht]
        exact .ok _ (hstore ho)
  case error.error =>
    cases hb with
    | error e ho =>
        rw [onOutput_error hs, onOutput_error ht]
        exact .error _ (hstore ho)
  all_goals cases hb

theorem agrees_modify {f : Store → Store} (hf : ∀ {st st'}, st.Alike st' → (f st).Alike (f st'))
    (houtput : ∀ st, (f st).output = st.output) : (modify f : Operation StoreError Store PUnit).Agrees Twin :=
  fun st _ h => .ok _ ⟨hf h.alike, (houtput st).symm ▸ h.room⟩

theorem agrees_checked (id : ObjectId) : (checked id).Agrees Twin :=
  .get_bind (fun st st' h => by rw [validate, validate, h.alike.table]) fun _ => .ofExcept _ _

theorem agrees_delete (id : ObjectId) : (delete id).Agrees Twin := by
  refine (agrees_onTable _).bind fun outcome => .bind ?_ fun _ => .pure outcome
  refine agrees_modify (fun h => ?_) fun _ => rfl
  exact ⟨h.config, h.table, by rw [h.payloads], by rw [h.catalog], by rw [h.info], h.device, h.content⟩

theorem agrees_appendBody (id : ObjectId) (o : Object) (refs : ReferenceTable) : (appendBody id o refs).Agrees Twin := by
  refine (Operation.Agrees.ofExcept _ _).bind fun c => (agrees_onOutput (OutputCursor.agrees_append _)).bind
    fun offset => (agrees_onTable _).bind fun _ => .bind ?_ fun _ => .pure offset
  refine agrees_modify (fun h => ?_) fun _ => rfl
  exact ⟨h.config, h.table, by rw [h.payloads], h.catalog, h.info, h.device, h.content⟩

theorem agrees_writeAt (id : ObjectId) (o : Object) (refs : ReferenceTable) : (writeAt id o refs).Agrees Twin := by
  refine (agrees_checked id).bind fun slot => ?_
  cases slot.isPending with
  | true => exact agrees_appendBody id o refs
  | false => exact .throw _

theorem agrees_readBack (id : ObjectId) : (readBack id).Agrees Twin :=
  (agrees_checked id).bind fun _ => .get_bind (fun st st' h => by rw [payload, payload, h.alike.payloads])
    fun _ => (Operation.Agrees.ofExcept _ _).bind fun _ => agrees_onOutput (OutputCursor.agrees_readAt _ _)

theorem agrees_perform (k : Call) : (perform k).Agrees Twin := by
  cases k with
  | reserve => exact (agrees_onTable _).bind fun _ => .pure _
  | delete id => exact (agrees_delete id).bind fun _ => .pure _
  | writeAt id o refs => exact (agrees_writeAt id o refs).bind fun _ => .pure _
  | replaceAt id o refs =>
      exact ((agrees_checked id).bind fun _ => agrees_appendBody id o refs).bind fun _ => .pure _
  | write o refs =>
      have hwrite : (write o refs).Agrees Twin :=
        (agrees_onTable _).bind fun id => (agrees_writeAt id o refs).bind fun _ => .pure id
      exact hwrite.bind fun _ => .pure _
  | setCatalog id =>
      have hset : (setCatalog id).Agrees Twin := (agrees_checked id).bind fun _ => agrees_modify
        (fun h => ⟨h.config, h.table, h.payloads, rfl, h.info, h.device, h.content⟩) fun _ => rfl
      exact hset.bind fun _ => .pure _
  | setInfo id =>
      have hset : (setInfo id).Agrees Twin := (agrees_checked id).bind fun _ => agrees_modify
        (fun h => ⟨h.config, h.table, h.payloads, h.catalog, rfl, h.device, h.content⟩) fun _ => rfl
      exact hset.bind fun _ => .pure _
  | resolve id =>
      have hlook : (look (·.resolve id)).Agrees Twin := .get_bind (fun st st' h => by
        simp only [resolve, validate, payload, h.alike.table, h.alike.payloads]) fun _ => .ofExcept _ _
      exact hlook.bind fun _ => .pure _
  | readRaw id => exact (agrees_readBack id).bind fun _ => .pure _

/-! ## Runs without reads -/

def Call.reads : Call → Bool
  | .readRaw _ => true
  | _ => false

/-- The calls that do not read back, with what came of them. -/
def withoutReads (log : Log) : List (Call × Except StoreError Answer) :=
  (log.filter fun e => !e.call.reads).map fun e => (e.call, e.outcome)

/-- Without the reads of a run, the other calls have the same outcomes and lead to the same bytes. -/
theorem withoutReads_run (hroom : first.output.device ≠ .full) (h : Runs perform first log st) :
    ∃ log' st', Runs perform first log' st' ∧ log'.map (fun e => (e.call, e.outcome)) = withoutReads log ∧
      st.Twin st' := by
  induction h with
  | none => exact ⟨[], first, .none, rfl, .refl first, hroom⟩
  | @call log st _ k ih =>
      obtain ⟨log', st', hrun, hlog, htwin⟩ := ih
      cases hk : k.reads with
      | true =>
          cases k with
          | readRaw id =>
              have hnext : (perform (.readRaw id)).next st = (readBack id).next st := Operation.next_bind_pure _ _ st
              have halike := alike_readBack st id
              refine ⟨log', st', hrun, ?_, ?_⟩
              · rw [hlog, withoutReads, withoutReads, List.filter_cons_of_neg (by simp [Event.ofCall, hk])]
              · rw [hnext]
                exact ⟨halike.symm.trans htwin.alike, halike.device ▸ htwin.room⟩
          | _ => cases hk
      | false =>
          refine ⟨_, _, hrun.call k, ?_, (agrees_perform k).next htwin⟩
          rw [List.map_cons, hlog, withoutReads, withoutReads, List.filter_cons_of_pos (by simp [Event.ofCall, hk]),
            List.map_cons]
          exact congrArg (fun outcome => (k, outcome) :: _) ((agrees_perform k).outcome htwin)

theorem agrees_finish (catalog : ObjectId) : (finish catalog).Agrees Twin :=
  .get_bind (fun st st' h => by rw [h.alike.table, h.alike.info]) fun st =>
    (agrees_onOutput (OutputCursor.agrees_append _)).bind fun _ =>
      (agrees_onOutput (OutputCursor.agrees_append _)).bind fun _ =>
        (agrees_onOutput OutputCursor.agrees_finish).bind fun _ => .pure _

theorem Twin.close_eq (h : st.Twin st') : st'.close = st.close := by
  have hcheck : st'.checkClosable = st.checkClosable := by
    rw [checkClosable, checkClosable, h.alike.catalog, h.alike.table]
  rw [close, close, hcheck, h.alike.catalog]
  refine congrArg (st.checkClosable >>= ·) (funext fun _ => ?_)
  cases st.catalog with
  | none => rfl
  | some catalog =>
      have hb := agrees_finish catalog st st' h
      simp only [Operation.answer?]
      generalize finish catalog st = r, finish catalog st' = r' at hb
      cases hb <;> rfl

end Store

end PdfStore
