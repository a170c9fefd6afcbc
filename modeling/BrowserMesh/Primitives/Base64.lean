import BrowserMesh.Js.Encoding

/-! # Base64 for URLs

`encodeBase64url` writes every three bytes as four units of an alphabet without `+`, `/` and padding.  The text determines
the bytes (`encodeBase64url_injective`). -/

namespace BrowserMesh.Primitives
open Js

/-- The unit of six bits: `A … Z`, `a … z`, `0 … 9`, `-`, `_`. -/
def base64Unit (d : ℕ) : CodeUnit :=
  Fin.ofNat _ (if d < 26 then 65 + d else if d < 52 then 71 + d else if d < 62 then d - 4 else if d = 62 then 45 else 95)

/-- `encodeBase64url`. -/
def encodeBase64url : Bytes → JsString
  | [] => []
  | [a] => [base64Unit (a.val / 4), base64Unit (a.val % 4 * 16)]
  | [a, b] => [base64Unit (a.val / 4), base64Unit (a.val % 4 * 16 + b.val / 16), base64Unit (b.val % 16 * 4)]
  | a :: b :: c :: rest =>
      base64Unit (a.val / 4) :: base64Unit (a.val % 4 * 16 + b.val / 16) :: base64Unit (b.val % 16 * 4 + c.val / 64) ::
        base64Unit (c.val % 64) :: encodeBase64url rest

example : encodeBase64url [0xFB, 0xFF, 0xBF, 0x4D] = js "-_-_TQ" := by decide +kernel

theorem base64Unit_inj {d e : ℕ} (hd : d < 64) (he : e < 64) (h : base64Unit d = base64Unit e) : d = e := by
  have hval := congrArg Fin.val h
  simp only [base64Unit, Fin.val_ofNat] at hval
  split_ifs at hval <;> omega

theorem encodeBase64url_injective : Function.Injective encodeBase64url := by
  intro s t h
  induction s using encodeBase64url.induct generalizing t with
  | case1 =>
      rcases t with _ | ⟨a', _ | ⟨b', _ | ⟨c', rest'⟩⟩⟩
      · rfl
      all_goals simp [encodeBase64url] at h
  | case2 a =>
      rcases t with _ | ⟨a', _ | ⟨b', _ | ⟨c', rest'⟩⟩⟩
      · simp [encodeBase64url] at h
      · simp only [encodeBase64url, List.cons.injEq, and_true] at h
        have h1 := base64Unit_inj (by omega) (by omega) h.1
        have h2 := base64Unit_inj (by omega) (by omega) h.2
        rw [Fin.ext (show a.val = a'.val by omega)]
      all_goals simp [encodeBase64url] at h
  | case3 a b =>
      rcases t with _ | ⟨a', _ | ⟨b', _ | ⟨c', rest'⟩⟩⟩
      · simp [encodeBase64url] at h
      · simp [encodeBase64url] at h
      · simp only [encodeBase64url, List.cons.injEq, and_true] at h
        have h1 := base64Unit_inj (by omega) (by omega) h.1
        have h2 := base64Unit_inj (by omega) (by omega) h.2.1
        have h3 := base64Unit_inj (by omega) (by omega) h.2.2
        rw [Fin.ext (show a.val = a'.val by omega), Fin.ext (show b.val = b'.val by omega)]
      · simp [encodeBase64url] at h
  | case4 a b c rest ih =>
      rcases t with _ | ⟨a', _ | ⟨b', _ | ⟨c', rest'⟩⟩⟩
      · simp [encodeBase64url] at h
      · simp [encodeBase64url] at h
      · simp [encodeBase64url] at h
      · simp only [encodeBase64url, List.cons.injEq] at h
        obtain ⟨h1, h2, h3, h4, hrest⟩ := h
        have h1 := base64Unit_inj (by omega) (by omega) h1
        have h2 := base64Unit_inj (by omega) (by omega) h2
        have h3 := base64Unit_inj (by omega) (by omega) h3
        have h4 := base64Unit_inj (by omega) (by omega) h4
        rw [Fin.ext (show a.val = a'.val by omega), Fin.ext (show b.val = b'.val by omega),
          Fin.ext (show c.val = c'.val by omega), ih hrest]

end BrowserMesh.Primitives
