import Flashclaw.Reef.Envelope

/-!
# Reef: receipts

`signReceipt` of `protocol/receipts.ts`.
-/

namespace Flashclaw.Reef

open Utf16 Json

structure ReceiptBody where
  id : Utf16
  bodyHash : Utf16
  auditHead : Utf16
  status : ReceiptStatus
  category : Option Utf16

def ReceiptStatus.text : ReceiptStatus → String
  | accepted => "accepted"
  | rejected => "rejected"

def ReceiptBody.fields (body : ReceiptBody) : List (Utf16 × JsValue) :=
  [(ofString "id", .string body.id), (ofString "bodyHash", .string body.bodyHash),
    (ofString "auditHead", .string body.auditHead),
    (ofString "status", .string (ofString body.status.text))] ++
      (body.category.map fun category => (ofString "category", JsValue.string category)).toList

/-- `/^[0-9a-f]{64}$/`. -/
def isHash (value : Utf16) : Bool :=
  value.length = 64 && value.all fun c => isDigit c || inRange 'a' 'f' c

def validateReceiptBody (body : ReceiptBody) : Except JsError Unit :=
  if isUlid body.id ∧ isHash body.bodyHash ∧ isHash body.auditHead ∧
      body.category.all fun category => 1 ≤ category.length && category.length ≤ 64 then .ok ()
  else .error ⟨"Error", "invalid receipt"⟩

def signReceipt (crypto : EnvelopeCrypto) (body : ReceiptBody)
    (recipientSigningSecretKey : Utf16) : Except JsError SignedReceipt := do
  let _ ← validateReceiptBody body
  let message ← canonicalBytes (.object body.fields)
  let key ← fromBase64url recipientSigningSecretKey
  let signature ← crypto.sign message key
  return ⟨body.id, body.bodyHash, body.auditHead, body.status, body.category, base64 signature⟩

def SignedReceipt.value (receipt : SignedReceipt) : JsValue :=
  .object ((ReceiptBody.mk receipt.id receipt.bodyHash receipt.auditHead receipt.status
    receipt.category).fields ++ [(ofString "signature", .string receipt.signature)])

end Flashclaw.Reef
