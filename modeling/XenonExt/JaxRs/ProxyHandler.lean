import XenonExt.Java.Replace
import XenonExt.JaxRs.RequestRouterBuilder

/-! # Client calls

`ProxyHandler.buildOperation` turns the call of an interface method into an operation: it replaces
the placeholders of the template, one parameter after the other, and collects the query, the body,
the headers and the cookies.

* **`buildOperation`**: the operation, over Xenon's `UriUtils` and `String.valueOf`. -/

namespace XenonExt

variable {O : Type}

/-- The operation for a call. -/
structure ClientOperation (O : Type) where
  action : Action
  uri : Uri
  body : Option O
  headers : List (Str × Str)
  cookies : AList fun _ : Str => Str
  referer : Str

/-- The client of a service: the supplier of its base URI and its referrer. -/
structure ProxyHandler where
  baseUri : Uri
  referrer : Str

/-- `JaxRsServiceClient.addPathFromAnnotation`: the URI the client's supplier gives, from its base
URI and the `Path` of the interface. -/
def addPathFromAnnotation (u : UriUtils) (element : Interface) (parent : Uri) : Uri :=
  u.extendUri parent element.path

/-- `JaxRsServiceClient.build`, for a client that has been given a base URI. -/
def JaxRsServiceClient.build (u : UriUtils) (resourceInterface : Interface) (baseUri : Uri)
    (referrer : Str) : ProxyHandler where
  baseUri := addPathFromAnnotation u resourceInterface baseUri
  referrer := referrer

namespace ProxyHandler

/-- What the loop of `buildOperation` has collected. -/
structure Collected (O : Type) where
  methodUri : JString
  queryUri : List Str
  body : Option O
  headers : List (Str × Str)
  cookies : AList fun _ : Str => Str

/-- The pattern for a placeholder. -/
def placeholder (name : JString) : Str := '\x7b' :: text name ++ ['\x7d']

/-- What an argument that is not `null` adds; `none` when it throws. -/
def collectArgument (c : Collected O) (paramMetadata : ParamMetadata) (arg : O) (paramValue : Str) :
    Option (Collected O) :=
  match paramMetadata.type with
  | .path => do
    let methodUri ← c.methodUri
    let methodUri ← replaceAll (placeholder paramMetadata.name) paramValue methodUri
    some { c with methodUri := some methodUri }
  | .query => some { c with queryUri := c.queryUri ++ [text paramMetadata.name, paramValue] }
  | .body => some { c with body := some arg }
  | .header => some { c with headers := c.headers ++ [(text paramMetadata.name, paramValue)] }
  | .cookie => some { c with cookies := c.cookies.insert (text paramMetadata.name) paramValue }
  | .operation => some c

/-- The body of the loop: `null` arguments are skipped; `none` when it throws. -/
def collect (valueOf : O → Str) (args : List (Option O)) (c : Collected O)
    (paramMetadata : ParamMetadata) : Option (Collected O) :=
  match args[paramMetadata.parameterIndex]? with
  | some (some arg) => collectArgument c paramMetadata arg (valueOf arg)
  | some none => some c
  | none => none

/-- **`buildOperation`**; `none` when it throws. -/
def buildOperation (u : UriUtils) (valueOf : O → Str) (handler : ProxyHandler)
    (httpMethod : MethodInfo) (args : List (Option O)) : Option (ClientOperation O) :=
  (httpMethod.parameters.foldlM (collect valueOf args) ⟨httpMethod.uriPath, [], none, [], ∅⟩).map
    fun c =>
      { action := httpMethod.action
        uri := u.extendUriWithQuery (u.extendUri handler.baseUri c.methodUri) c.queryUri
        body := c.body
        headers := c.headers
        cookies := c.cookies
        referer := handler.referrer }

end ProxyHandler

end XenonExt
