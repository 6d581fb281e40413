import TransportBackend.AtomicProgram
import TransportBackend.KeyedTable
import TransportBackend.Binary64
import TransportBackend.InterleavedRun
import TransportBackend.InviteStore
import TransportBackend.InviteService
import TransportBackend.InviteAges
import TransportBackend.InviteWindows
import TransportBackend.InviteRuns
import TransportBackend.InviteSweep
import TransportBackend.InviteChecks
import TransportBackend.TripFareRules
import TransportBackend.TripStore
import TransportBackend.ListingService
import TransportBackend.TripService
import TransportBackend.TripRun
import TransportBackend.TripEffect
import TransportBackend.TripMoves
import TransportBackend.TripInvariant
import TransportBackend.TripRevival
import TransportBackend.TripFareHistory
import TransportBackend.TripReminder
import TransportBackend.TripInterleaving
import TransportBackend.LoadInterleaving
import TransportBackend.DeliveryInterleaving
import TransportBackend.MonitoredProgram
import TransportBackend.NoticeStore
import TransportBackend.NoticeService
import TransportBackend.NoticeMonitor
import TransportBackend.NoticeColumns
import TransportBackend.NoticeInterleaving
import TransportBackend.NoticeHistory
import TransportBackend.NoticeGivenUp
import TransportBackend.NoticeDigest
import TransportBackend.NoticeHeld
import TransportBackend.NoticeFault
import TransportBackend.NoticeStranded
import TransportBackend.SubscriptionStore
import TransportBackend.SubscriptionService
import TransportBackend.SubscriptionEffect
import TransportBackend.PaymentOnce
import TransportBackend.TrackingCodes
import TransportBackend.PeriodChain
import TransportBackend.SubscriptionPeriods
import TransportBackend.LockHolders
import TransportBackend.RewardTiers
import TransportBackend.CommandSum
import TransportBackend.BrokerStore
import TransportBackend.BrokerService
import TransportBackend.BrokerCredit
import TransportBackend.BrokerSpending
import TransportBackend.NullLogic
import TransportBackend.BrokerLedger
import TransportBackend.TripPolicy
import TransportBackend.SequentialRun
import TransportBackend.LedgerBalance
import TransportBackend.EscapedKeys
import TransportBackend.RedisKeys
import TransportBackend.RedisStore
import TransportBackend.RegistrationStore
import TransportBackend.RegistrationService
import TransportBackend.RegistrationFrame
import TransportBackend.SignInRun
import TransportBackend.OneSession
import TransportBackend.AdminTries
import TransportBackend.SmsCodes
import TransportBackend.MoneyTexts
import TransportBackend.JsonTexts
import TransportBackend.RubikaClient
import TransportBackend.RubikaKeypads
import TransportBackend.AlertFilters
import TransportBackend.DriverAudience
import TransportBackend.PlanExpiry
import TransportBackend.PlanNotices
import TransportBackend.FareDialog
import TransportBackend.FarePages
import TransportBackend.FareReasons
import TransportBackend.TrimmedTexts
import TransportBackend.WhatsappAnswers
import TransportBackend.PriceForms
import TransportBackend.PriceGroups
import TransportBackend.PriceWords
import TransportBackend.PriceReaders
import TransportBackend.ContactPhones
import TransportBackend.DigitGroups
import TransportBackend.GroupedReaders
import TransportBackend.GroupedPrices
import TransportBackend.PersianNumberWords
import TransportBackend.NumberWordValues
import TransportBackend.SpokenNumbers
import TransportBackend.EditDistance
import TransportBackend.SpokenDistances
import TransportBackend.SpokenMatches
import TransportBackend.SpokenDigits
import TransportBackend.SpokenAmounts
import TransportBackend.MarkedDigits
import TransportBackend.Polylines
import TransportBackend.SpacedTimes
import TransportBackend.RateLimiter
import TransportBackend.SpokenTokens
import TransportBackend.SpokenPlaces
import TransportBackend.ResolvedCodes
import TransportBackend.ReadWindows
import TransportBackend.CompanyFeatures
import TransportBackend.FeatureGrants
import TransportBackend.FeatureAccess
import TransportBackend.FeatureOrders
import TransportBackend.LedgerOverdraft
