/-
# What goes into a queue comes out of it, in the same order

A component keeps a queue somewhere in its state.  Each step puts some items at the end of it and
takes some from its front: with `put` and `get` for what it puts and takes, the queue before and
after satisfy `before ++ put = get ++ after`.  Along a run the equations add up (`Run.conserved`):
everything put, in the order of the run, is everything taken, in the order of the run, and then the
queue.  So the queue is first in, first out, and nothing is lost in it, doubled or invented.
-/
import Tpso.Lib.Run

namespace Tpso.Lib

namespace Lts

variable {S L A : Type} {T : Lts S L} {tr : List (Transition S L)} {s : S}

/-- **The law of a queue along a run**, whose steps all meet `C`. -/
theorem Run.conserved (hr : T.Run tr s) (queue : S → List A) (put get : Transition S L → List A)
    (first : List A) {I : S → Prop} {C : S → L → Prop}
    (h0 : ∀ s, T.init s → I s ∧ queue s = first)
    (hI : ∀ s l s', I s → C s l → T.step s l s' → I s')
    (hstep : ∀ s l s', I s → C s l → T.step s l s' →
      queue s ++ put ⟨s, l, s'⟩ = get ⟨s, l, s'⟩ ++ queue s')
    (hc : ∀ x ∈ tr, C x.src x.label) :
    first ++ tr.flatMap put = tr.flatMap get ++ queue s := by
  induction hr with
  | start hi => simp [(h0 _ hi).2]
  | @step tr s s' l hrun hst ih =>
    have hpre : ∀ x ∈ tr, C x.src x.label := fun x hx => hc x (List.mem_append_left _ hx)
    have hlast : C s l := hc ⟨s, l, s'⟩ (List.mem_append_right _ (List.mem_singleton_self _))
    have hs : I s := hrun.invariant (fun s hs => (h0 s hs).1) hI hpre
    simp only [List.flatMap_append, List.flatMap_singleton]
    calc
      first ++ (tr.flatMap put ++ put ⟨s, l, s'⟩)
          = (tr.flatMap get ++ queue s) ++ put ⟨s, l, s'⟩ := by rw [← List.append_assoc, ih hpre]
      _ = tr.flatMap get ++ (get ⟨s, l, s'⟩ ++ queue s') := by
        rw [List.append_assoc, hstep s l s' hs hlast hst]
      _ = tr.flatMap get ++ get ⟨s, l, s'⟩ ++ queue s' := by rw [List.append_assoc]

/-- The law for a log, from which nothing is taken. -/
theorem Run.logged (hr : T.Run tr s) (log : S → List A) (put : Transition S L → List A) (first : List A)
    {I : S → Prop} {C : S → L → Prop} (h0 : ∀ s, T.init s → I s ∧ log s = first)
    (hI : ∀ s l s', I s → C s l → T.step s l s' → I s')
    (hstep : ∀ s l s', I s → C s l → T.step s l s' → log s' = log s ++ put ⟨s, l, s'⟩)
    (hc : ∀ x ∈ tr, C x.src x.label) : log s = first ++ tr.flatMap put := by
  have h := hr.conserved log put (fun _ => []) first h0 hI
    (fun s l s' hs hl hst => (hstep s l s' hs hl hst).symm) hc
  have hnone : tr.flatMap (fun _ => ([] : List A)) = [] := by simp
  rw [hnone, List.nil_append] at h
  exact h.symm

end Lts

end Tpso.Lib
