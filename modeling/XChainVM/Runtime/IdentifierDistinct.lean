import Mathlib.Data.List.Nodup
import XChainVM.Runtime.IdentifierRuns

/-! # Identifiers never collide

Within one execution two preimages agree on everything but the queue length and the class of the
call. A request ends with a digit and a call with the name of a chain, and the length is read back
from either.
-/

namespace XChainVM.Runtime

open Gas Js Machine

def RequestTexts.stem (t : RequestTexts) : String :=
  t.txHash ++ ":" ++ t.rootActionIndex ++ ":" ++ t.callPath ++ ":" ++ t.contractIndex ++ ":"

def CallTexts.stem (t : CallTexts) : String :=
  t.network ++ ":" ++ t.sourceChain ++ ":" ++ t.txHash ++ ":" ++ t.rootActionIndex ++ ":" ++
    t.contractIndex ++ ":" ++ t.callPath ++ ":"

section

variable {ctx : EmitContext} {m n : ℕ} {sourceChain targetChain text : String}

theorem normalize_requestFields (ctx : EmitContext) (n : ℕ) : (ctx.requestFields n).normalize ctx.lang =
    ((ctx.requestFields 0).normalize ctx.lang).map fun t => { t with emissionIndex := n } := by
  simp only [RequestFields.normalize, EmitContext.requestFields]
  cases textOrEmpty ctx.lang ctx.txHash <;>
    cases normalizeRootDiscriminator ctx.lang ctx.rootActionIndex <;>
      cases indexText ctx.lang ctx.contractIndex <;> rfl

theorem normalize_callFields (ctx : EmitContext) (sourceChain targetChain : String) (n : ℕ) :
    (ctx.callFields sourceChain targetChain n).normalize ctx.lang =
      ((ctx.callFields sourceChain "" 0).normalize ctx.lang).map fun t =>
        { t with emissionIndex := n, targetChain } := by
  simp only [CallFields.normalize, EmitContext.callFields]
  cases textOrEmpty ctx.lang ctx.network <;>
    cases textOrEmpty ctx.lang ctx.txHash <;>
      cases normalizeRootDiscriminator ctx.lang ctx.rootActionIndex <;>
        cases indexText ctx.lang ctx.contractIndex <;> rfl

theorem request_text (h : buildRequestIdPreimage ctx.lang (ctx.requestFields n) = some text) :
    ∃ t, (ctx.requestFields 0).normalize ctx.lang = some t ∧
      text.toList = t.stem.toList ++ (toString n).toList := by
  rw [buildRequestIdPreimage, normalize_requestFields, Option.map_map] at h
  obtain ⟨t, ht, rfl⟩ := Option.map_eq_some_iff.mp h
  exact ⟨t, ht, by simp [RequestTexts.preimage, RequestTexts.stem]⟩

theorem call_text
    (h : buildCallIdPreimage ctx.lang (ctx.callFields sourceChain targetChain n) = some text) :
    ∃ t, (ctx.callFields sourceChain "" 0).normalize ctx.lang = some t ∧
      text.toList = t.stem.toList ++ joined ':' [toString n, targetChain] := by
  rw [buildCallIdPreimage, normalize_callFields, Option.map_map] at h
  obtain ⟨t, ht, rfl⟩ := Option.map_eq_some_iff.mp h
  exact ⟨t, ht, by simp [CallTexts.preimage, CallTexts.stem, joined, List.intercalate]⟩

theorem separator_notMem_target (h : targetChain ∈ ALLOWED_TARGET_CHAINS) : ':' ∉ targetChain.toList := by
  simp only [ALLOWED_TARGET_CHAINS, List.mem_cons, List.not_mem_nil, or_false] at h
  obtain rfl | rfl | rfl := h <;> decide

theorem separator_notMem_parts (n : ℕ) (h : targetChain ∈ ALLOWED_TARGET_CHAINS) :
    ∀ x ∈ [toString n, targetChain], ':' ∉ x.toList := by
  intro x hx
  simp only [List.mem_cons, List.not_mem_nil, or_false] at hx
  obtain rfl | rfl := hx
  · exact separator_notMem_toString n
  · exact separator_notMem_target h

theorem request_getLast (h : buildRequestIdPreimage ctx.lang (ctx.requestFields n) = some text) :
    ∃ c, text.toList.getLast? = some c ∧ c.isDigit = true := by
  obtain ⟨t, -, htext⟩ := request_text h
  have hne : (toString n).toList ≠ [] := toString_ne_nil n
  refine ⟨(toString n).toList.getLast hne, ?_, isDigit_of_mem_toString (List.getLast_mem hne)⟩
  rw [htext, List.getLast?_append_of_ne_nil _ hne, List.getLast?_eq_some_getLast hne]

theorem call_getLast (htarget : targetChain ∈ ALLOWED_TARGET_CHAINS)
    (h : buildCallIdPreimage ctx.lang (ctx.callFields sourceChain targetChain n) = some text) :
    ∃ c, text.toList.getLast? = some c ∧ c.isDigit = false := by
  obtain ⟨t, -, htext⟩ := call_text h
  have hjoined : joined ':' [toString n, targetChain] = (toString n).toList ++ ':' :: targetChain.toList := by
    simp [joined, List.intercalate]
  rw [htext, hjoined]
  simp only [ALLOWED_TARGET_CHAINS, List.mem_cons, List.not_mem_nil, or_false] at htarget
  obtain rfl | rfl | rfl := htarget
  · exact ⟨'C', by simp, by decide⟩
  · exact ⟨'C', by simp, by decide⟩
  · exact ⟨'E', by simp, by decide⟩

theorem request_ne_call (hr : buildRequestIdPreimage ctx.lang (ctx.requestFields m) = some text)
    (htarget : targetChain ∈ ALLOWED_TARGET_CHAINS) :
    buildCallIdPreimage ctx.lang (ctx.callFields sourceChain targetChain n) ≠ some text := by
  intro hc
  obtain ⟨c, hlast, hdigit⟩ := request_getLast hr
  obtain ⟨d, hlast', hdigit'⟩ := call_getLast htarget hc
  obtain rfl : c = d := Option.some.inj (hlast.symm.trans hlast')
  rw [hdigit] at hdigit'
  cases hdigit'

/-- A preimage fixes the index it was built at. -/
theorem Preimage.index_eq (hm : Preimage ctx m text) (hn : Preimage ctx n text) : m = n := by
  cases hm with
  | request hm =>
    cases hn with
    | request hn =>
      obtain ⟨t, ht, htext⟩ := request_text hm
      obtain ⟨u, hu, hutext⟩ := request_text hn
      obtain rfl : t = u := Option.some.inj (ht.symm.trans hu)
      exact toString_injective (String.toList_inj.mp (List.append_cancel_left (htext.symm.trans hutext)))
    | call _ _ _ htarget hn => exact absurd hn (request_ne_call hm htarget)
  | call source target hsource htarget hm =>
    cases hn with
    | request hn => exact absurd hm (request_ne_call hn htarget)
    | call source' target' hsource' htarget' hn =>
      obtain rfl : source = source' := Option.some.inj (hsource.symm.trans hsource')
      obtain ⟨t, ht, htext⟩ := call_text hm
      obtain ⟨u, hu, hutext⟩ := call_text hn
      obtain rfl : t = u := Option.some.inj (ht.symm.trans hu)
      have hlist : [toString m, target] = [toString n, target'] := by
        refine joined_injective (by simp) (by simp) (separator_notMem_parts m htarget)
          (separator_notMem_parts n htarget') ?_
        exact List.append_cancel_left (htext.symm.trans hutext)
      exact toString_injective (List.cons.inj hlist).1

end

theorem ends_answer (ctx : EmitContext) (call : ContractCall) (s : Session) :
    Ends (call.answer ctx) s
      (fun id? s' => id?.elim (s.emitted ≤ s'.emitted) fun id => Identified ctx s id s')
      (EmitApi.Threw s) := by
  cases call with
  | request r =>
    refine Ends.bind (ends_attestationRequest ctx r s) ?_
    intro id s' h
    exact h
  | crossExecute params =>
    refine Ends.bind (ends_crossExecute ctx params s) ?_
    intro id s' h
    exact h
  | host call =>
    have hle : s.emitted ≤ (s.answer ctx.toCallContext call).2.emitted :=
      s.emitted_le_answer ctx.toCallContext call
    have hcall : Ends (EmitApi.call fun s => s.answer ctx.toCallContext call) s
        (fun _ s' => s.emitted ≤ s'.emitted) (EmitApi.Threw s) := by
      refine EmitApi.ends_call ?_ ?_
      · intro s' h
        rwa [h] at hle
      · intro e s' h
        rwa [h] at hle
    refine hcall.bind ?_
    intro _ s' h
    exact h

/-- The identifiers received are the hashes of preimages at increasing indices. -/
theorem identifiers_preimages (ctx : EmitContext) (s : Session) (calls : List ContractCall) :
    ∃ built : List (ℕ × String), identifiers ctx s calls = built.map (fun b => ctx.hash b.2) ∧
      (∀ b ∈ built, s.emitted ≤ b.1 ∧ Preimage ctx b.1 b.2) ∧ built.Pairwise (fun b c => b.1 < c.1) := by
  induction calls generalizing s with
  | nil => exact ⟨[], rfl, by simp, .nil⟩
  | cons call rest ih =>
    have hcall := ends_answer ctx call s
    unfold Ends at hcall
    rw [identifiers]
    cases hanswer : call.answer ctx s with
    | ok id? s' =>
      obtain ⟨built, hids, hbuilt, hpairwise⟩ := ih s'
      simp only [hanswer] at hcall
      cases id? with
      | none => exact ⟨built, hids, fun b hb => ⟨le_trans hcall (hbuilt b hb).1, (hbuilt b hb).2⟩, hpairwise⟩
      | some id =>
        obtain ⟨hs', text, htext, rfl⟩ := hcall
        refine ⟨(s.emitted, text) :: built, by simp [hids], ?_, ?_⟩
        · intro b hb
          obtain rfl | hb := List.mem_cons.mp hb
          · exact ⟨le_rfl, htext⟩
          · exact ⟨by have := (hbuilt b hb).1; omega, (hbuilt b hb).2⟩
        · refine List.pairwise_cons.mpr ⟨?_, hpairwise⟩
          intro b hb
          have hle : s'.emitted ≤ b.1 := (hbuilt b hb).1
          simp only
          omega
    | error e s' =>
      obtain ⟨built, hids, hbuilt, hpairwise⟩ := ih s'
      simp only [hanswer] at hcall
      exact ⟨built, hids, fun b hb => ⟨le_trans hcall (hbuilt b hb).1, (hbuilt b hb).2⟩, hpairwise⟩

theorem buildRequestIdPreimage_eq {lang : Language} {f : RequestFields} {t : RequestTexts}
    (h : f.normalize lang = some t) : buildRequestIdPreimage lang f = some t.preimage := by
  rw [buildRequestIdPreimage, h, Option.map_some]

theorem buildCallIdPreimage_eq {lang : Language} {f : CallFields} {t : CallTexts}
    (h : f.normalize lang = some t) : buildCallIdPreimage lang f = some t.preimage := by
  rw [buildCallIdPreimage, h, Option.map_some]

/-- Admitted fields are read back from their preimage, a request is no call, composite roots stay
apart, and one execution returns the hashes of pairwise distinct preimages. -/
theorem identifiers_never_collide :
    (∀ (lang : Language) (f g : RequestFields) (t u : RequestTexts), f.normalize lang = some t →
      g.normalize lang = some u → t.Admitted → u.Admitted →
        buildRequestIdPreimage lang f = buildRequestIdPreimage lang g → t = u) ∧
    (∀ (lang : Language) (f g : CallFields) (t u : CallTexts), f.normalize lang = some t →
      g.normalize lang = some u → t.Admitted → u.Admitted →
        buildCallIdPreimage lang f = buildCallIdPreimage lang g → t = u) ∧
    (∀ (lang : Language) (f : RequestFields) (g : CallFields) (r : RequestTexts) (c : CallTexts),
      f.normalize lang = some r → g.normalize lang = some c → r.Admitted → c.Admitted →
        buildRequestIdPreimage lang f ≠ buildCallIdPreimage lang g) ∧
    (∀ (lang : Language) (root root' : String), isComposite root = true → isComposite root' = true →
      normalizeRootDiscriminator lang (.string root) = normalizeRootDiscriminator lang (.string root') →
        root = root') ∧
    ∀ (ctx : EmitContext) (s : Session) (calls : List ContractCall),
      (∃ preimages : List String, identifiers ctx s calls = preimages.map ctx.hash ∧ preimages.Nodup ∧
        ∀ text ∈ preimages, ∃ index, Preimage ctx index text) ∧
      (Function.Injective ctx.hash → (identifiers ctx s calls).Nodup) := by
  refine ⟨?_, ?_, ?_, ?_, ?_⟩
  · intro lang f g t u hf hg ht hu h
    rw [buildRequestIdPreimage_eq hf, buildRequestIdPreimage_eq hg] at h
    exact RequestTexts.preimage_injective ht hu (Option.some.inj h)
  · intro lang f g t u hf hg ht hu h
    rw [buildCallIdPreimage_eq hf, buildCallIdPreimage_eq hg] at h
    exact CallTexts.preimage_injective ht hu (Option.some.inj h)
  · intro lang f g r c hf hg hr hc h
    rw [buildRequestIdPreimage_eq hf, buildCallIdPreimage_eq hg] at h
    exact request_preimage_ne_call hr hc (Option.some.inj h)
  · intro lang root root' hroot hroot' h
    rw [normalizeRootDiscriminator_composite lang hroot, normalizeRootDiscriminator_composite lang hroot'] at h
    exact Option.some.inj h
  · intro ctx s calls
    obtain ⟨built, hids, hbuilt, hpairwise⟩ := identifiers_preimages ctx s calls
    have hnodup : (built.map Prod.snd).Nodup := by
      refine List.pairwise_map.mpr (hpairwise.imp_of_mem ?_)
      intro b c hb hc hlt heq
      have hindex : b.1 = c.1 := Preimage.index_eq (hbuilt b hb).2 (heq ▸ (hbuilt c hc).2)
      omega
    have hmap : identifiers ctx s calls = (built.map Prod.snd).map ctx.hash := by
      rw [hids, List.map_map]
      rfl
    refine ⟨⟨built.map Prod.snd, hmap, hnodup, ?_⟩, fun hinjective => hmap ▸ List.Nodup.map hinjective hnodup⟩
    intro text htext
    obtain ⟨b, hb, rfl⟩ := List.mem_map.mp htext
    exact ⟨b.1, (hbuilt b hb).2⟩

def batchLanguage : Language := ⟨fun _ => "0", fun _ => some .nan, fun _ => some "true"⟩

def batchedRequest (root : String) : RequestFields := ⟨.string "ab", .string root, .string "0/1", .null, 1⟩

def batchedCall (root : String) : CallFields :=
  ⟨.string "main", "BTC", .string "ab", .string root, .null, .string "0/1", 1, "LTC"⟩

theorem identifiers_never_collide_batched :
    buildRequestIdPreimage batchLanguage (batchedRequest "1.2") ≠
        buildRequestIdPreimage batchLanguage (batchedRequest "1.12") ∧
      buildCallIdPreimage batchLanguage (batchedCall "1.2") ≠
        buildCallIdPreimage batchLanguage (batchedCall "1.12") ∧
      buildRequestIdPreimage batchLanguage (batchedRequest "1.2") ≠
        buildCallIdPreimage batchLanguage (batchedCall "1.2") ∧
      normalizeRootDiscriminator batchLanguage (.string "1.2") ≠
        normalizeRootDiscriminator batchLanguage (.string "1.12") := by
  have hrequest (root : String) (h : isComposite root = true) :
      (batchedRequest root).normalize batchLanguage = some ⟨"ab", root, "0/1", "", 1⟩ := by
    rw [RequestFields.normalize, batchedRequest, normalizeRootDiscriminator_composite batchLanguage h]
    rfl
  have hcall (root : String) (h : isComposite root = true) :
      (batchedCall root).normalize batchLanguage = some ⟨"main", "BTC", "ab", root, "", "0/1", 1, "LTC"⟩ := by
    rw [CallFields.normalize, batchedCall, normalizeRootDiscriminator_composite batchLanguage h]
    rfl
  have hroots : isComposite "1.2" = true ∧ isComposite "1.12" = true := by decide +kernel
  obtain ⟨hrequests, hcalls, happart, hcomposite, -⟩ := identifiers_never_collide
  refine ⟨fun h => ?_, fun h => ?_, ?_, fun h => ?_⟩
  · have heq := hrequests batchLanguage _ _ _ _ (hrequest _ hroots.1) (hrequest _ hroots.2)
      (by unfold RequestTexts.Admitted; decide +kernel) (by unfold RequestTexts.Admitted; decide +kernel) h
    exact absurd heq (by decide +kernel)
  · have heq := hcalls batchLanguage _ _ _ _ (hcall _ hroots.1) (hcall _ hroots.2)
      (by unfold CallTexts.Admitted; decide +kernel) (by unfold CallTexts.Admitted; decide +kernel) h
    exact absurd heq (by decide +kernel)
  · exact happart batchLanguage _ _ _ _ (hrequest _ hroots.1) (hcall _ hroots.1)
      (by unfold RequestTexts.Admitted; decide +kernel) (by unfold CallTexts.Admitted; decide +kernel)
  · exact absurd (hcomposite batchLanguage _ _ hroots.1 hroots.2 h) (by decide +kernel)

end XChainVM.Runtime
