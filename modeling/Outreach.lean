import Outreach.Library.Machine
import Outreach.Library.Dict
import Outreach.Library.Pattern
import Outreach.Library.Words
import Outreach.Guardrails.Reference
import Outreach.Guardrails.Port
import Outreach.Guardrails.Alphabet
import Outreach.Guardrails.Portable
import Outreach.Cleansing.Normalize
import Outreach.Library.Listing
import Outreach.Suppression.Store
import Outreach.Suppression.Freshness
import Outreach.Cleansing.Pipeline
import Outreach.Cleansing.Leak
import Outreach.Library.Table
import Outreach.Salesforce.Records
import Outreach.Salesforce.Send
import Outreach.Salesforce.Webhook
import Outreach.Salesforce.Org
import Outreach.Salesforce.Growth
import Outreach.Salesforce.SendGate
import Outreach.Salesforce.FirstTouch
import Outreach.Salesforce.AttemptLog
import Outreach.Salesforce.Stored
import Outreach.Salesforce.TwoStores
import Outreach.Salesforce.Template
import Outreach.Salesforce.Terminal
import Outreach.Cleansing.Cooldown
import Outreach.Library.Window
import Outreach.Salesforce.Throttle
import Outreach.TextTorrent.Reconcile
import Outreach.Salesforce.Mirror
import Outreach.Cleansing.ExternalId
import Outreach.Cleansing.Steps
import Outreach.Cleansing.Isolation
import Outreach.Salesforce.Deliveries
import Outreach.Library.Script
import Outreach.Salesforce.Bulk
import Outreach.Salesforce.Sync
import Outreach.Guardrails.Obfuscation
import Outreach.Guardrails.EditScan
import Outreach.Guardrails.OptOut
import Outreach.Cleansing.Newest
import Outreach.Cleansing.Conservation
import Outreach.Salesforce.Decisions
import Outreach.Library.CodePoints
import Outreach.Library.Json
import Outreach.Library.JsonRoundTrip
import Outreach.Library.Python
import Outreach.Classifier.Buckets
import Outreach.Classifier.Handler
import Outreach.Classifier.LambdaApi
import Outreach.Research.AutoChat
import Outreach.Library.NormalForm
import Outreach.Cleansing.Canonical
import Outreach.Suppression.Endpoint
import Outreach.Suppression.Spelling
import Outreach.Salesforce.Sender
import Outreach.TextTorrent.RoundTrip
import Outreach.TextTorrent.Client
import Outreach.Suppression.Reduction
import Outreach.Library.Lines
import Outreach.Cleansing.Ndjson
import Outreach.Library.Csv
import Outreach.Salesforce.Upload
import Outreach.Cleansing.Ragged
import Outreach.Cleansing.ContactDates
import Outreach.Library.Binary64
import Outreach.Library.Calendar
import Outreach.Salesforce.InboundGap
import Outreach.Library.UrlForm
import Outreach.Library.Sorted
import Outreach.Library.Hmac
import Outreach.Salesforce.Signature
import Outreach.Classifier.RuleHash
import Outreach.Salesforce.BatchJob
import Outreach.Salesforce.AuditTrail
import Outreach.Library.Reruns
import Outreach.Cleansing.Reruns
import Outreach.Cleansing.EndToEnd
import Outreach.Research.Harness
import Outreach.Salesforce.Drift
import Outreach.Library.Base64
import Outreach.Library.JsonPlain
import Outreach.Salesforce.Assertion
import Outreach.Classifier.Environment
import Outreach.Library.Multipart
import Outreach.TextTorrent.Vendor
import Outreach.TextTorrent.Canary
import Outreach.TextTorrent.CanaryRun
import Outreach.TextTorrent.Nightly
